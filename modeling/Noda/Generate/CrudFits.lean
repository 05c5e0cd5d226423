import Noda.Generate.Crud
import Noda.Lib.Assoc

/-!
# Do the generated files fit together?

What the workflows that are generated for a model read and name, against the routes that start them and the columns of
the model (`WorkflowFits`, `RouteFits`).  Workflows and routes fit together for some models and options only:
`generateCRUD_fits_iff` says for which (`Suitable`).
-/

namespace Noda.Generate.Crud

open Noda.Config

/-! ### What fits -/

def Value.reads : Value → Option String
  | .input name => some name
  | .inputOr name _ => some name
  | .generatedId => none

def Workflow.dbNodes (w : Workflow) : List DbNode :=
  w.nodes.filterMap fun e => match e.2 with
    | .db n => some n
    | _ => none

/-- The node reads the input. -/
def DbNode.Reads (n : DbNode) (name : String) : Prop :=
  ∃ field v, (n.data.lookup field = some v ∨ n.conditions.lookup field = some v ∨ n.paging.lookup field = some v) ∧
    v.reads = some name

/-- The operations on one row. -/
def Op.OnRow (op : Op) : Prop := op = .get ∨ op = .update ∨ op = .delete

instance (op : Op) : Decidable op.OnRow := inferInstanceAs (Decidable (_ ∨ _))

/-- Part of the primary key. -/
def IsKey (columns : List ColInfo) (name : String) : Prop := ∃ col ∈ columns, col.primaryKey = true ∧ col.name = name

/-- Every column of the primary key has a condition, and one of them is the id. -/
structure SelectsByKey (columns : List ColInfo) (conditions : GoMap Value) : Prop where
  all : ∀ name, IsKey columns name → name ∈ conditions
  id : ∃ name, IsKey columns name ∧ conditions.lookup name = some (.input "id")

/-- The value comes from the body. -/
def FromBody (r : Route) (v : Value) : Prop :=
  ∃ name field, v.reads = some name ∧ r.input.lookup name = some (.body field)

/-- What a workflow must be for its operation. -/
structure WorkflowFits (columns : List ColInfo) (opts : CRUDOptions) (op : Op) (w : Workflow) : Prop where
  named : ∀ n ∈ w.dbNodes, ∀ name, name ∈ n.data ∨ name ∈ n.conditions → name ∈ columns.map ColInfo.name
  scope : opts.Scoped → ∀ n ∈ w.dbNodes,
    n.data.lookup opts.scopeCol = some (.input opts.scopeParam) ∨
    n.conditions.lookup opts.scopeCol = some (.input opts.scopeParam)
  key : op.OnRow → ∀ n ∈ w.dbNodes, SelectsByKey columns n.conditions

/-- What a route must be for its workflow. -/
structure RouteFits (columns : List ColInfo) (opts : CRUDOptions) (op : Op) (w : Workflow) (r : Route) : Prop where
  reads : ∀ n ∈ w.dbNodes, ∀ name, n.Reads name → name ∈ r.input
  scope : opts.Scoped → r.input.lookup opts.scopeParam = some (.param opts.scopeParam)
  row : op.OnRow → r.input.lookup "id" = some (.param "id")
  /-- with a scope, no condition comes from the body, and no value for the scope column or for the key -/
  body : opts.Scoped → ∀ n ∈ w.dbNodes, ∀ name v,
    n.conditions.lookup name = some v ∨ (n.data.lookup name = some v ∧ (name = opts.scopeCol ∨ IsKey columns name)) →
    ¬FromBody r v

/-- The workflows that are generated fit to the model, and to the routes that are generated with them. -/
def FitsTogether (model : AnyMap) (opts : CRUDOptions) : Prop :=
  ∀ op w, generateCRUD model opts (.workflow (wfName (tableOf model) op)) = some (.workflow w) →
    WorkflowFits (parseColumns model) (opts.withDefaults (tableOf model)) op w ∧
    ∀ r, generateCRUD model opts (.route (wfName (tableOf model) op)) = some (.route r) →
      RouteFits (parseColumns model) (opts.withDefaults (tableOf model)) op w r

/-! ### For which models and options -/

/-- The new row has the scope column from the scope parameter, or not at all: there is no such column to fill, or the id
that is generated takes its place. -/
def ScopeColumnGiven (columns : List ColInfo) (opts : CRUDOptions) : Prop :=
  opts.Scoped ∨
  (∀ col ∈ columns, col.name = opts.scopeCol → col.primaryKey = true ∨ col.isTimestamp = true) ∨
  (opts.scopeCol = "id" ∧ hasUUIDPK columns = true ∧ ∃ col ∈ columns, col.primaryKey = true ∧ "id" < col.name)

/-- The primary key is the column `id`, and the scope leaves it alone.  The scope column may be part of the key; if the
scope parameter is `id`, then it may be all of it, where there is a column `id`. -/
structure KeyIsId (columns : List ColInfo) (opts : CRUDOptions) : Prop where
  column : "id" ∈ columns.map ColInfo.name
  only : ∀ name, IsKey columns name → name = "id" ∨ (opts.Scoped ∧ name = opts.scopeCol)
  row : (IsKey columns "id" ∧ (opts.Scoped → opts.scopeCol = "id" → opts.scopeParam = "id")) ∨
    (opts.Scoped ∧ opts.scopeParam = "id" ∧ IsKey columns opts.scopeCol)

/-- What the model must be for the operations, if workflows are generated. -/
structure Suitable (columns : List ColInfo) (opts : CRUDOptions) (ops : List Op) : Prop where
  scope : opts.Scoped → ops ≠ [] → opts.scopeCol ∈ columns.map ColInfo.name
  uuid : .create ∈ ops → hasUUIDPK columns = true → "id" ∈ columns.map ColInfo.name
  create : .create ∈ ops → "routes" ∈ opts.artifacts → ScopeColumnGiven columns opts
  key : ∀ op ∈ ops, op.OnRow → KeyIsId columns opts

/-! ### The maps -/

section

variable {columns : List ColInfo} {opts : CRUDOptions} {table : String}

private theorem lookup_scopeWrite {α : Type} (key : String) (v : α) (k : String) :
    (GoMap.ofWrites (scopeWrite opts key v)).lookup k = if opts.Scoped ∧ k = key then some v else none := by
  unfold scopeWrite
  by_cases hscoped : opts.Scoped
  · rw [if_pos hscoped, GoMap.lookup_ofWrites_singleton]
    simp [hscoped]
  · rw [if_neg hscoped, if_neg fun h => hscoped h.1]
    rfl

private theorem lookup_listWhere (k : String) : (listWhere opts).lookup k =
    if opts.Scoped ∧ k = opts.scopeCol then some (.input opts.scopeParam) else none :=
  lookup_scopeWrite ..

private theorem lookup_rowWhere (k : String) : (rowWhere opts).lookup k =
    if opts.Scoped ∧ k = opts.scopeCol then some (.input opts.scopeParam)
    else if k = "id" then some (.input "id") else none := by
  unfold rowWhere scopeField
  rw [GoMap.lookup_ofWrites_append, lookup_scopeWrite, GoMap.lookup_ofWrites_singleton]
  split_ifs <;> rfl

private theorem mem_rowWhere {k : String} : k ∈ rowWhere opts ↔ k = "id" ∨ (opts.Scoped ∧ k = opts.scopeCol) := by
  rw [AList.mem_iff_lookup, lookup_rowWhere]
  split_ifs with hscope hid
  · simp [hscope]
  · simp [hid]
  · simp [hid, hscope]

private theorem mem_listWhere {k : String} : k ∈ listWhere opts ↔ opts.Scoped ∧ k = opts.scopeCol := by
  rw [AList.mem_iff_lookup, lookup_listWhere]
  split_ifs with hscope
  · simp [hscope]
  · simp [hscope]

/-- An entry of the data of a new row. -/
private theorem lookup_createData {k : String} {v : Value} (h : (createData columns opts).lookup k = some v) :
    (opts.Scoped ∧ k = opts.scopeCol ∧ v = .input opts.scopeParam) ∨
    (¬(opts.Scoped ∧ k = opts.scopeCol) ∧
      (GoMap.ofWrites (columns.filterMap (createWrite columns))).lookup k = some v) := by
  unfold createData scopeField at h
  rw [GoMap.lookup_ofWrites_append, lookup_scopeWrite] at h
  split_ifs at h with hscope
  · exact .inl ⟨hscope.1, hscope.2, (Option.some.inj h).symm⟩
  · exact .inr ⟨hscope, h⟩

private theorem lookup_createData_scope (h : opts.Scoped) :
    (createData columns opts).lookup opts.scopeCol = some (.input opts.scopeParam) := by
  unfold createData scopeField
  rw [GoMap.lookup_ofWrites_append, lookup_scopeWrite, if_pos ⟨h, rfl⟩]
  rfl

private theorem createWrite_eq_some {col : ColInfo} {k : String} {v : Value} : createWrite columns col = some (k, v) ↔
    (col.primaryKey = true ∧ hasUUIDPK columns = true ∧ k = "id" ∧ v = .generatedId) ∨
    (col.primaryKey = false ∧ col.isTimestamp = false ∧ k = col.name ∧ v = .input col.name) := by
  unfold createWrite
  cases hkey : col.primaryKey with
  | true =>
    cases huuid : hasUUIDPK columns with
    | true => simp [@eq_comm _ k, @eq_comm _ v]
    | false => simp
  | false =>
    cases htime : col.isTimestamp with
    | true => simp
    | false => simp [@eq_comm _ k, @eq_comm _ v]

private theorem mem_createData {k : String} : k ∈ createData columns opts ↔
    (opts.Scoped ∧ k = opts.scopeCol) ∨ ∃ col ∈ columns, ∃ v, createWrite columns col = some (k, v) := by
  unfold createData scopeField scopeWrite
  rw [GoMap.mem_ofWrites, List.map_append, List.mem_append, or_comm]
  refine or_congr ?_ ?_
  · by_cases hscoped : opts.Scoped
    · simp [hscoped]
    · simp [hscoped]
  · simp only [List.mem_map, List.mem_filterMap]
    constructor
    · rintro ⟨⟨k', v⟩, ⟨col, hcol, hwrite⟩, rfl⟩
      exact ⟨col, hcol, v, hwrite⟩
    · rintro ⟨col, hcol, v, hwrite⟩
      exact ⟨(k, v), ⟨col, hcol, hwrite⟩, rfl⟩

private theorem lookup_updateData {k : String} {v : Value} (h : (updateData columns opts).lookup k = some v) :
    ∃ col ∈ columns, col.skipped opts.scopeCol = false ∧ k = col.name ∧ v = .input col.name := by
  obtain ⟨col, hcol, heq⟩ := List.mem_map.1 (GoMap.mem_of_lookup_ofWrites h)
  obtain ⟨hmem, hskip⟩ := List.mem_filter.1 hcol
  cases heq
  exact ⟨col, hmem, by simpa using hskip, rfl, rfl⟩

private theorem mem_bodyInput {k : String} {src : Source} : (k, src) ∈ bodyInput columns opts ↔
    ∃ col ∈ columns, col.skipped opts.scopeCol = false ∧ k = col.name ∧ src = .body col.name := by
  unfold bodyInput
  simp only [List.mem_map, List.mem_filter, decide_eq_true_eq, Bool.not_eq_true, Prod.mk.injEq]
  constructor
  · rintro ⟨col, ⟨hmem, hskip⟩, rfl, rfl⟩
    exact ⟨col, hmem, hskip, rfl, rfl⟩
  · rintro ⟨col, hmem, hskip, rfl, rfl⟩
    exact ⟨col, ⟨hmem, hskip⟩, rfl, rfl⟩

private theorem lookup_input_scope (writes : List (String × Source)) (h : opts.Scoped) :
    (GoMap.ofWrites (writes ++ scopeInput opts)).lookup opts.scopeParam = some (.param opts.scopeParam) := by
  unfold scopeInput
  rw [GoMap.lookup_ofWrites_append, lookup_scopeWrite, if_pos ⟨h, rfl⟩]
  rfl

private theorem mem_input {writes : List (String × Source)} {k : String} :
    k ∈ GoMap.ofWrites (writes ++ scopeInput opts) ↔
      k ∈ writes.map Prod.fst ∨ (opts.Scoped ∧ k = opts.scopeParam) := by
  unfold scopeInput scopeWrite
  rw [GoMap.mem_ofWrites, List.map_append, List.mem_append]
  refine or_congr_right ?_
  by_cases hscoped : opts.Scoped
  · simp [hscoped]
  · simp [hscoped]

/-! ### Workflows -/

private theorem dbNodes_create (table : String) :
    (workflow table columns opts .create).dbNodes = [createNode table columns opts] := by
  show (generateCreateWorkflow table columns opts).dbNodes = _
  unfold generateCreateWorkflow Workflow.dbNodes
  cases hasUUIDPK columns <;> rfl

private theorem workflowFits_create : WorkflowFits columns opts .create (workflow table columns opts .create) ↔
    (hasUUIDPK columns = true → "id" ∈ columns.map ColInfo.name) ∧
    (opts.Scoped → opts.scopeCol ∈ columns.map ColInfo.name) := by
  have hmem : createNode table columns opts ∈ (workflow table columns opts .create).dbNodes := by
    rw [dbNodes_create]
    exact List.mem_singleton_self _
  constructor
  · intro h
    have hnamed : ∀ name, name ∈ createData columns opts → name ∈ columns.map ColInfo.name :=
      fun name hname => h.named _ hmem name (.inl hname)
    constructor
    · intro huuid
      obtain ⟨col, hcol, hkey⟩ := List.any_eq_true.1 huuid
      have hpk : col.primaryKey = true := (Bool.and_eq_true_iff.1 hkey).1
      exact hnamed "id" (mem_createData.2 (.inr ⟨col, hcol, .generatedId,
        createWrite_eq_some.2 (.inl ⟨hpk, huuid, rfl, rfl⟩)⟩))
    · intro hscoped
      exact hnamed _ (mem_createData.2 (.inl ⟨hscoped, rfl⟩))
  · rintro ⟨huuid, hscope⟩
    refine ⟨?_, ?_, ?_⟩
    · intro n hn name hname
      rw [dbNodes_create, List.mem_singleton] at hn
      subst hn
      rcases hname with hname | hname
      · obtain ⟨hscoped, rfl⟩ | ⟨col, hcol, v, hwrite⟩ := mem_createData.1 hname
        · exact hscope hscoped
        · obtain ⟨-, hasuuid, rfl, -⟩ | ⟨-, -, rfl, -⟩ := createWrite_eq_some.1 hwrite
          · exact huuid hasuuid
          · exact List.mem_map_of_mem hcol
      · cases hname
    · intro hscoped n hn
      rw [dbNodes_create, List.mem_singleton] at hn
      subst hn
      exact .inl (lookup_createData_scope hscoped)
    · exact fun hrow => absurd hrow (by decide)

private theorem workflowFits_list : WorkflowFits columns opts .list (workflow table columns opts .list) ↔
    (opts.Scoped → opts.scopeCol ∈ columns.map ColInfo.name) := by
  have hnodes : (workflow table columns opts .list).dbNodes = [findNode table opts, countNode table opts] := rfl
  have hwhere : ∀ n ∈ (workflow table columns opts .list).dbNodes, n.conditions = listWhere opts ∧ n.data = ∅ := by
    rw [hnodes]
    simp [findNode, countNode]
  constructor
  · intro h hscoped
    exact h.named (countNode table opts) (by simp [hnodes]) _ (.inr (mem_listWhere.2 ⟨hscoped, rfl⟩))
  · intro hscope
    refine ⟨?_, ?_, ?_⟩
    · intro n hn name hname
      rw [(hwhere n hn).1, (hwhere n hn).2, mem_listWhere] at hname
      rcases hname with hname | ⟨hscoped, rfl⟩
      · cases hname
      · exact hscope hscoped
    · intro hscoped n hn
      rw [(hwhere n hn).1, lookup_listWhere, if_pos ⟨hscoped, rfl⟩]
      exact .inr rfl
    · exact fun hrow => absurd hrow (by decide)

private theorem selectsByKey_rowWhere (hcolumn : "id" ∈ columns.map ColInfo.name) :
    SelectsByKey columns (rowWhere opts) ↔ KeyIsId columns opts := by
  constructor
  · rintro ⟨hall, name, hkey, hlookup⟩
    refine ⟨hcolumn, fun name' hname' => mem_rowWhere.1 (hall name' hname'), ?_⟩
    rw [lookup_rowWhere] at hlookup
    split_ifs at hlookup with hscope hid
    · obtain ⟨hscoped, rfl⟩ := hscope
      have hparam : opts.scopeParam = "id" := Value.input.inj (Option.some.inj hlookup)
      exact .inr ⟨hscoped, hparam, hkey⟩
    · subst hid
      exact .inl ⟨hkey, fun hscoped hcol => absurd ⟨hscoped, hcol.symm⟩ hscope⟩
  · intro h
    refine ⟨fun name hname => mem_rowWhere.2 (h.only name hname), ?_⟩
    rcases h.row with ⟨hkey, hscope⟩ | ⟨hscoped, hparam, hkey⟩
    · refine ⟨"id", hkey, ?_⟩
      rw [lookup_rowWhere, if_pos rfl]
      split_ifs with hcol
      · rw [hscope hcol.1 hcol.2.symm]
      · rfl
    · refine ⟨opts.scopeCol, hkey, ?_⟩
      rw [lookup_rowWhere, if_pos ⟨hscoped, rfl⟩, hparam]

private theorem workflowFits_row {op : Op} {w : Workflow} (hop : op.OnRow) (hsome : w.dbNodes ≠ [])
    (hwhere : ∀ n ∈ w.dbNodes, n.conditions = rowWhere opts)
    (hdata : ∀ n ∈ w.dbNodes, ∀ name ∈ n.data, name ∈ columns.map ColInfo.name) :
    WorkflowFits columns opts op w ↔
      KeyIsId columns opts ∧ (opts.Scoped → opts.scopeCol ∈ columns.map ColInfo.name) := by
  constructor
  · intro h
    obtain ⟨n, hn⟩ := List.exists_mem_of_ne_nil _ hsome
    have hnamed : ∀ name, name ∈ rowWhere opts → name ∈ columns.map ColInfo.name := by
      intro name hname
      rw [← hwhere n hn] at hname
      exact h.named n hn name (.inr hname)
    have hkey := h.key hop n hn
    rw [hwhere n hn, selectsByKey_rowWhere (hnamed "id" (mem_rowWhere.2 (.inl rfl)))] at hkey
    exact ⟨hkey, fun hscoped => hnamed _ (mem_rowWhere.2 (.inr ⟨hscoped, rfl⟩))⟩
  · rintro ⟨hkey, hscope⟩
    refine ⟨?_, ?_, ?_⟩
    · intro n hn name hname
      rcases hname with hname | hname
      · exact hdata n hn name hname
      · rw [hwhere n hn] at hname
        rcases mem_rowWhere.1 hname with rfl | ⟨hscoped, rfl⟩
        · exact hkey.column
        · exact hscope hscoped
    · intro hscoped n hn
      rw [hwhere n hn, lookup_rowWhere, if_pos ⟨hscoped, rfl⟩]
      exact .inr rfl
    · intro _ n hn
      rw [hwhere n hn]
      exact (selectsByKey_rowWhere hkey.column).2 hkey

/-! ### Routes -/

def InOrder (columns : List ColInfo) : Prop := columns.Pairwise fun a b => a.name < b.name

private theorem eq_of_name_eq (h : InOrder columns) {a b : ColInfo} (ha : a ∈ columns) (hb : b ∈ columns)
    (hname : a.name = b.name) :
    a = b := by
  refine List.inj_on_of_nodup_map (f := ColInfo.name) ?_ ha hb hname
  refine List.pairwise_map.2 (h.imp ?_)
  intro a b hlt heq
  rw [heq] at hlt
  exact String.lt_irrefl _ hlt

private theorem inOrder_parseColumns (model : AnyMap) : InOrder (parseColumns model) := by
  unfold parseColumns InOrder
  rw [List.pairwise_filterMap]
  have hlt : (sortStrings ((mapField model "columns").getD ∅).keys).Pairwise (· < ·) := by
    have hle : (sortStrings ((mapField model "columns").getD ∅).keys).Pairwise (· ≤ ·) :=
      List.pairwise_insertionSort _ _
    refine (hle.and (nodup_sortStrings.2 (AList.keys_nodup _))).imp ?_
    rintro a b ⟨hab, hne⟩
    by_contra hnot
    exact hne (String.le_antisymm hab (String.not_lt.1 hnot))
  refine hlt.imp ?_
  intro a b hab ca hca cb hcb
  obtain ⟨ma, -, rfl⟩ := Option.map_eq_some_iff.1 hca
  obtain ⟨mb, -, rfl⟩ := Option.map_eq_some_iff.1 hcb
  exact hab

private theorem not_fromBody {r : Route} {x y : String} (h : r.input.lookup x = some (.param y)) :
    ¬FromBody r (.input x) := by
  rintro ⟨name, field, hreads, hlookup⟩
  cases hreads
  rw [h] at hlookup
  cases hlookup

private theorem not_fromBody_rowWhere {r : Route} (hrow : r.input.lookup "id" = some (.param "id"))
    (hscope : opts.Scoped → r.input.lookup opts.scopeParam = some (.param opts.scopeParam)) {name : String} {v : Value}
    (h : (rowWhere opts).lookup name = some v) : ¬FromBody r v := by
  rw [lookup_rowWhere] at h
  split_ifs at h with hscoped
  · cases h
    exact not_fromBody (hscope hscoped.1)
  · cases h
    exact not_fromBody hrow

private theorem reads_rowWhere {name x : String} {v : Value} (h : (rowWhere opts).lookup name = some v)
    (hx : v.reads = some x) : x = "id" ∨ (opts.Scoped ∧ x = opts.scopeParam) := by
  rw [lookup_rowWhere] at h
  split_ifs at h with hscoped
  · cases h
    cases hx
    exact .inr ⟨hscoped.1, rfl⟩
  · cases h
    cases hx
    exact .inl rfl

private theorem routeFits_list : RouteFits columns opts .list (workflow table columns opts .list)
    (route table columns opts .list) := by
  have hnodes : (workflow table columns opts .list).dbNodes = [findNode table opts, countNode table opts] := rfl
  have hwhere : ∀ n ∈ (workflow table columns opts .list).dbNodes, n.conditions = listWhere opts ∧ n.data = ∅ ∧
      ∀ name v, n.paging.lookup name = some v → v = .inputOr "limit" 20 ∨ v = .inputOr "offset" 0 := by
    rw [hnodes, List.forall_mem_cons, List.forall_mem_singleton]
    refine ⟨⟨rfl, rfl, fun name v hv => ?_⟩, rfl, rfl, fun name v hv => by cases hv⟩
    have hmem := Assoc.mem_of_lookup ((GoMap.lookup_ofPairs _ _).symm.trans hv)
    simp only [List.mem_cons, Prod.mk.injEq, List.not_mem_nil, or_false] at hmem
    rcases hmem with ⟨-, rfl⟩ | ⟨-, rfl⟩
    · exact .inl rfl
    · exact .inr rfl
  have hscope : opts.Scoped →
      (route table columns opts .list).input.lookup opts.scopeParam = some (.param opts.scopeParam) :=
    lookup_input_scope _
  refine ⟨?_, hscope, fun hrow => absurd hrow (by decide), ?_⟩
  · rintro n hn x ⟨name, v, hv, hx⟩
    obtain ⟨hconditions, hdata, hpaging⟩ := hwhere n hn
    show x ∈ GoMap.ofWrites _
    rw [mem_input]
    rcases hv with hv | hv | hv
    · rw [hdata] at hv
      cases hv
    · rw [hconditions, lookup_listWhere] at hv
      split_ifs at hv with hscoped
      cases hv
      cases hx
      exact .inr ⟨hscoped.1, rfl⟩
    · rcases hpaging name v hv with rfl | rfl
      · cases hx
        exact .inl (by simp)
      · cases hx
        exact .inl (by simp)
  · intro hscoped n hn name v hv
    obtain ⟨hconditions, hdata, -⟩ := hwhere n hn
    rcases hv with hv | ⟨hv, -⟩
    · rw [hconditions, lookup_listWhere] at hv
      split_ifs at hv
      cases hv
      exact not_fromBody (hscope hscoped)
    · rw [hdata] at hv
      cases hv

/-- The id of the URL, unless the columns write over it. -/
private theorem lookup_input_id {writes : List (String × Source)}
    (h : (opts.Scoped ∧ opts.scopeParam = "id") ∨ "id" ∉ writes.map Prod.fst) :
    (GoMap.ofWrites (idInput ++ writes ++ scopeInput opts)).lookup "id" = some (.param "id") := by
  unfold scopeInput idInput
  rw [GoMap.lookup_ofWrites_append, lookup_scopeWrite, GoMap.lookup_ofWrites_append,
    GoMap.lookup_ofWrites_singleton, if_pos rfl]
  split_ifs with hscope
  · rw [← hscope.2]
    rfl
  · have hnot : "id" ∉ writes.map Prod.fst := h.resolve_left fun h => hscope ⟨h.1, h.2.symm⟩
    rw [GoMap.lookup_ofWrites_eq_none.2 hnot]
    rfl

private theorem routeFits_row {op : Op} {w : Workflow} {r : Route} {writes : List (String × Source)}
    (hinput : r.input = GoMap.ofWrites (idInput ++ writes ++ scopeInput opts))
    (hid : (opts.Scoped ∧ opts.scopeParam = "id") ∨ "id" ∉ writes.map Prod.fst)
    (hwhere : ∀ n ∈ w.dbNodes, n.conditions = rowWhere opts ∧ n.paging = ∅)
    (hdata : ∀ n ∈ w.dbNodes, ∀ name v, n.data.lookup name = some v →
      v = .input name ∧ name ∈ writes.map Prod.fst ∧ name ≠ opts.scopeCol ∧ ¬IsKey columns name) :
    RouteFits columns opts op w r := by
  have hscope : opts.Scoped → r.input.lookup opts.scopeParam = some (.param opts.scopeParam) := by
    rw [hinput]
    exact lookup_input_scope _
  have hrow : r.input.lookup "id" = some (.param "id") := by
    rw [hinput]
    exact lookup_input_id hid
  refine ⟨?_, hscope, fun _ => hrow, ?_⟩
  · rintro n hn x ⟨name, v, hv, hx⟩
    rw [hinput, mem_input, List.map_append, List.mem_append]
    rcases hv with hv | hv | hv
    · obtain ⟨rfl, hmem, -⟩ := hdata n hn name v hv
      cases hx
      exact .inl (.inr hmem)
    · rw [(hwhere n hn).1] at hv
      rcases reads_rowWhere hv hx with rfl | hscoped
      · exact .inl (.inl (by simp [idInput]))
      · exact .inr hscoped
    · rw [(hwhere n hn).2] at hv
      cases hv
  · intro _ n hn name v hv
    rcases hv with hv | ⟨hv, hname⟩
    · rw [(hwhere n hn).1] at hv
      exact not_fromBody_rowWhere hrow hscope hv
    · obtain ⟨-, -, hnot, hkey⟩ := hdata n hn name v hv
      rcases hname with hname | hname
      · exact absurd hname hnot
      · exact absurd hname hkey

private theorem lookup_createWrites {before after : List ColInfo} {col : ColInfo} {k : String} {v : Value}
    (heq : columns = before ++ col :: after) (hwrite : createWrite columns col = some (k, v))
    (hafter : ∀ col' ∈ after, ∀ v', createWrite columns col' = some (k, v') → v' = v) :
    (GoMap.ofWrites (columns.filterMap (createWrite columns))).lookup k = some v := by
  have hsplit : columns.filterMap (createWrite columns) =
      before.filterMap (createWrite columns) ++ [(k, v)] ++ after.filterMap (createWrite columns) := by
    nth_rewrite 2 [heq]
    rw [List.filterMap_append, List.filterMap_cons_some hwrite]
    simp
  rw [hsplit, GoMap.lookup_ofWrites_append, GoMap.lookup_ofWrites_append, GoMap.lookup_ofWrites_singleton, if_pos rfl]
  cases hlater : (GoMap.ofWrites (after.filterMap (createWrite columns))).lookup k with
  | none => rfl
  | some v' =>
    obtain ⟨col', hcol', hwrite'⟩ := List.mem_filterMap.1 (GoMap.mem_of_lookup_ofWrites hlater)
    rw [hafter col' hcol' v' hwrite']
    rfl

private theorem lt_of_after (h : InOrder columns) {before after : List ColInfo} {col col' : ColInfo}
    (heq : columns = before ++ col :: after) (hcol' : col' ∈ after) : col.name < col'.name := by
  rw [heq] at h
  exact List.rel_of_pairwise_cons (List.pairwise_append.1 h).2.1 hcol'

private theorem lookup_createWrites_id (h : InOrder columns) (huuid : hasUUIDPK columns = true) {col : ColInfo}
    (hcol : col ∈ columns) (hkey : col.primaryKey = true) (hlt : "id" < col.name) :
    (GoMap.ofWrites (columns.filterMap (createWrite columns))).lookup "id" = some .generatedId := by
  obtain ⟨before, after, heq⟩ := List.append_of_mem hcol
  refine lookup_createWrites heq (createWrite_eq_some.2 (.inl ⟨hkey, huuid, rfl, rfl⟩)) ?_
  intro col' hcol' v' hwrite
  obtain ⟨-, -, -, rfl⟩ | ⟨-, -, hname, -⟩ := createWrite_eq_some.1 hwrite
  · rfl
  · -- the column `id` is not after the key
    have hlt' := String.lt_trans hlt (lt_of_after h heq hcol')
    rw [← hname] at hlt'
    exact absurd hlt' (String.lt_irrefl _)

private theorem lookup_createData_of_not_given (h : InOrder columns) (hnot : ¬ScopeColumnGiven columns opts) :
    ¬opts.Scoped ∧ (createData columns opts).lookup opts.scopeCol = some (.input opts.scopeCol) := by
  obtain ⟨hscoped, hrest⟩ := not_or.1 hnot
  obtain ⟨hexists, hplace⟩ := not_or.1 hrest
  push Not at hexists
  obtain ⟨col, hcol, hname, hkey, htime⟩ := hexists
  have hwrite : createWrite columns col = some (opts.scopeCol, .input opts.scopeCol) := by
    rw [← hname]
    exact createWrite_eq_some.2 (.inr ⟨by simpa using hkey, by simpa using htime, rfl, rfl⟩)
  refine ⟨hscoped, ?_⟩
  unfold createData scopeField scopeWrite
  rw [if_neg hscoped, List.append_nil]
  obtain ⟨before, after, heq⟩ := List.append_of_mem hcol
  refine lookup_createWrites heq hwrite ?_
  intro col' hcol' v' hwrite'
  have hlt := lt_of_after h heq hcol'
  rw [hname] at hlt
  obtain ⟨hkey', huuid, hid, -⟩ | ⟨-, -, hname', -⟩ := createWrite_eq_some.1 hwrite'
  · -- a key after the column `id` would write the generated id
    have hmem : col' ∈ columns := by
      rw [heq]
      exact List.mem_append_right _ (List.mem_cons_of_mem _ hcol')
    rw [hid] at hlt
    exact absurd ⟨hid, huuid, col', hmem, hkey', hlt⟩ hplace
  · rw [hname'] at hlt
    exact absurd hlt (String.lt_irrefl _)

private theorem scopeCol_notMem_bodyInput : opts.scopeCol ∉ (bodyInput columns opts).map Prod.fst := by
  intro hmem
  obtain ⟨⟨k, src⟩, hwrite, hk⟩ := List.mem_map.1 hmem
  obtain ⟨col, -, hskip, hname, -⟩ := mem_bodyInput.1 hwrite
  have hscope : col.name = opts.scopeCol := hname.symm.trans hk
  simp [ColInfo.skipped, hscope] at hskip

private theorem column_of_lookup {k : String} {v : Value}
    (h : (GoMap.ofWrites (columns.filterMap (createWrite columns))).lookup k = some v) :
    v = .generatedId ∨ ∃ col ∈ columns, col.primaryKey = false ∧ col.isTimestamp = false ∧ k = col.name ∧
      v = .input k := by
  obtain ⟨col, hcol, hwrite⟩ := List.mem_filterMap.1 (GoMap.mem_of_lookup_ofWrites h)
  obtain ⟨-, -, -, hv⟩ | ⟨hkey, htime, rfl, hv⟩ := createWrite_eq_some.1 hwrite
  · exact .inl hv
  · exact .inr ⟨col, hcol, hkey, htime, rfl, hv⟩

private theorem createData_reads (h : InOrder columns) (hgiven : ScopeColumnGiven columns opts) {k x : String}
    {v : Value}
    (hdata : (createData columns opts).lookup k = some v) (hx : v.reads = some x) :
    x ∈ GoMap.ofWrites (bodyInput columns opts ++ scopeInput opts) := by
  rw [mem_input]
  obtain ⟨hscoped, -, rfl⟩ | ⟨hplain, hcolumn⟩ := lookup_createData hdata
  · cases hx
    exact .inr ⟨hscoped, rfl⟩
  obtain rfl | ⟨col, hcol, hkey, htime, rfl, rfl⟩ := column_of_lookup hcolumn
  · cases hx
  cases hx
  by_cases hname : col.name = opts.scopeCol
  · rcases hgiven with hscoped | hnone | ⟨hid, huuid, col', hcol', hkey', hlt⟩
    · exact absurd ⟨hscoped, hname⟩ hplain
    · have hor := hnone col hcol hname
      simp [hkey, htime] at hor
    · rw [hname, hid, lookup_createWrites_id h huuid hcol' hkey' hlt] at hcolumn
      cases hcolumn
  · refine .inl (List.mem_map.2 ⟨(col.name, .body col.name), mem_bodyInput.2 ⟨col, hcol, ?_, rfl, rfl⟩, rfl⟩)
    simp [ColInfo.skipped, hkey, htime, hname]

/-- Neither the scope column nor the key of a new row comes from the body. -/
private theorem not_fromBody_createData (h : InOrder columns) (hscoped : opts.Scoped) {r : Route}
    (hscope : r.input.lookup opts.scopeParam = some (.param opts.scopeParam)) {k : String} {v : Value}
    (hdata : (createData columns opts).lookup k = some v) (hk : k = opts.scopeCol ∨ IsKey columns k) :
    ¬FromBody r v := by
  obtain ⟨-, -, rfl⟩ | ⟨hplain, hcolumn⟩ := lookup_createData hdata
  · exact not_fromBody hscope
  obtain rfl | ⟨col, hcol, hkey, -, rfl, -⟩ := column_of_lookup hcolumn
  · rintro ⟨x, field, hx, -⟩
    cases hx
  · rcases hk with hk | ⟨col', hcol', hkey', hname⟩
    · exact absurd ⟨hscoped, hk⟩ hplain
    · rw [eq_of_name_eq h hcol' hcol hname, hkey] at hkey'
      cases hkey'

private theorem routeFits_create (h : InOrder columns) :
    RouteFits columns opts .create (workflow table columns opts .create) (route table columns opts .create) ↔
      ScopeColumnGiven columns opts := by
  have hscope : opts.Scoped →
      (route table columns opts .create).input.lookup opts.scopeParam = some (.param opts.scopeParam) :=
    lookup_input_scope _
  constructor
  · intro hfits
    by_contra hnot
    obtain ⟨hscoped, hlookup⟩ := lookup_createData_of_not_given h hnot
    have hread : opts.scopeCol ∈ GoMap.ofWrites (bodyInput columns opts ++ scopeInput opts) := by
      refine hfits.reads (createNode table columns opts) ?_ opts.scopeCol ⟨_, _, .inl hlookup, rfl⟩
      rw [dbNodes_create]
      exact List.mem_singleton_self _
    rcases mem_input.1 hread with hread | ⟨hscoped', -⟩
    · exact scopeCol_notMem_bodyInput hread
    · exact hscoped hscoped'
  · intro hgiven
    refine ⟨?_, hscope, fun hrow => absurd hrow (by decide), ?_⟩
    · rintro n hn x ⟨name, v, hv, hx⟩
      rw [dbNodes_create, List.mem_singleton] at hn
      subst hn
      rcases hv with hv | hv | hv
      · exact createData_reads h hgiven hv hx
      · cases hv
      · cases hv
    · intro hscoped n hn name v hv
      rw [dbNodes_create, List.mem_singleton] at hn
      subst hn
      rcases hv with hv | ⟨hv, hname⟩
      · cases hv
      · exact not_fromBody_createData h hscoped (hscope hscoped) hv hname

/-! ### The operations on a row -/

private theorem mem_updateData {name : String} (h : name ∈ updateData columns opts) :
    name ∈ columns.map ColInfo.name := by
  obtain ⟨v, hv⟩ := AList.mem_iff_lookup.1 h
  obtain ⟨col, hcol, -, rfl, -⟩ := lookup_updateData hv
  exact List.mem_map_of_mem hcol

variable (table columns opts) in
private theorem rowNodes {op : Op} (hop : op.OnRow) : (workflow table columns opts op).dbNodes ≠ [] ∧
    ∀ n ∈ (workflow table columns opts op).dbNodes, n.conditions = rowWhere opts ∧ n.paging = ∅ ∧
      (n.data = ∅ ∨ (op = .update ∧ n.data = updateData columns opts)) := by
  rcases hop with rfl | rfl | rfl
  · have hnodes : (workflow table columns opts .get).dbNodes = [findOneNode table opts] := rfl
    rw [hnodes, List.forall_mem_singleton]
    exact ⟨by simp, rfl, rfl, .inl rfl⟩
  · have hnodes : (workflow table columns opts .update).dbNodes =
        [findOneNode table opts, updateNode table columns opts] := rfl
    rw [hnodes, List.forall_mem_cons, List.forall_mem_singleton]
    exact ⟨by simp, ⟨rfl, rfl, .inl rfl⟩, rfl, rfl, .inr ⟨rfl, rfl⟩⟩
  · have hnodes : (workflow table columns opts .delete).dbNodes = [deleteNode table opts] := rfl
    rw [hnodes, List.forall_mem_singleton]
    exact ⟨by simp, rfl, rfl, .inl rfl⟩

private theorem workflowFits_onRow {op : Op} (hop : op.OnRow) :
    WorkflowFits columns opts op (workflow table columns opts op) ↔
    KeyIsId columns opts ∧ (opts.Scoped → opts.scopeCol ∈ columns.map ColInfo.name) := by
  obtain ⟨hsome, hnodes⟩ := rowNodes columns opts table hop
  refine workflowFits_row hop hsome (fun n hn => (hnodes n hn).1) ?_
  intro n hn name hname
  rcases (hnodes n hn).2.2 with hdata | ⟨-, hdata⟩
  · rw [hdata] at hname
    cases hname
  · rw [hdata] at hname
    exact mem_updateData hname

theorem KeyIsId.id_free (hkey : KeyIsId columns opts) (h : InOrder columns) :
    (opts.Scoped ∧ opts.scopeParam = "id") ∨ "id" ∉ (bodyInput columns opts).map Prod.fst := by
  rcases hkey.row with ⟨⟨col, hcol, hpk, hname⟩, -⟩ | ⟨hscoped, hparam, -⟩
  · refine .inr fun hmem => ?_
    obtain ⟨⟨k, src⟩, hwrite, rfl⟩ := List.mem_map.1 hmem
    obtain ⟨col', hcol', hskip, hname', -⟩ := mem_bodyInput.1 hwrite
    rw [eq_of_name_eq h hcol' hcol (hname'.symm.trans hname.symm)] at hskip
    simp [ColInfo.skipped, hpk] at hskip
  · exact .inl ⟨hscoped, hparam⟩

private theorem routeFits_onRow {op : Op} (hop : op.OnRow) (h : InOrder columns) (hkey : KeyIsId columns opts) :
    RouteFits columns opts op (workflow table columns opts op) (route table columns opts op) := by
  obtain ⟨-, hnodes⟩ := rowNodes columns opts table hop
  have hwhere : ∀ n ∈ (workflow table columns opts op).dbNodes, n.conditions = rowWhere opts ∧ n.paging = ∅ :=
    fun n hn => ⟨(hnodes n hn).1, (hnodes n hn).2.1⟩
  by_cases hupdate : op = .update
  · subst hupdate
    refine routeFits_row rfl (hkey.id_free h) hwhere ?_
    intro n hn name v hv
    rcases (hnodes n hn).2.2 with hdata | ⟨-, hdata⟩
    · rw [hdata] at hv
      cases hv
    · rw [hdata] at hv
      obtain ⟨col, hcol, hskip, rfl, rfl⟩ := lookup_updateData hv
      refine ⟨rfl, List.mem_map.2 ⟨_, mem_bodyInput.2 ⟨col, hcol, hskip, rfl, rfl⟩, rfl⟩, ?_, ?_⟩
      · intro hname
        simp [ColInfo.skipped, hname] at hskip
      · rintro ⟨col', hcol', hpk, hname⟩
        rw [eq_of_name_eq h hcol' hcol hname] at hpk
        simp [ColInfo.skipped, hpk] at hskip
  · have hinput : (route table columns opts op).input = GoMap.ofWrites (idInput ++ [] ++ scopeInput opts) := by
      rcases hop with rfl | rfl | rfl
      · rfl
      · exact absurd rfl hupdate
      · rfl
    refine routeFits_row hinput (.inr (by simp)) hwhere ?_
    intro n hn name v hv
    rcases (hnodes n hn).2.2 with hdata | ⟨heq, -⟩
    · rw [hdata] at hv
      cases hv
    · exact absurd heq hupdate

/-! ### Files -/

-- The names of two operations already differ in their first letter.
private theorem wfName_inj {op op' : Op} (h : wfName table op = wfName table op') : op = op' := by
  have hletter : (wfName table op).toList.head? = (wfName table op').toList.head? := by rw [h]
  cases op <;> cases op' <;> first
    | rfl
    | simp [wfName, String.toList_append] at hletter

private theorem foldl_writes {f : Files → Op → Files} {name : FileName} {op : Op} {file : File} {p : Prop} [Decidable p]
    (hf : ∀ files op', f files op' name = if op' = op ∧ p then some file else files name) (ops : List Op)
    (files : Files) : ops.foldl f files name = if op ∈ ops ∧ p then some file else files name := by
  induction ops generalizing files with
  | nil => simp
  | cons op' ops ih =>
    rw [List.foldl_cons, ih, hf]
    by_cases hp : p
    · by_cases hop : op' = op
      · simp [hp, hop]
      · simp [hp, hop, Ne.symm hop]
    · simp [hp]

private theorem writeOp_workflow (files : Files) (op op' : Op) :
    writeOp table columns opts files op' (.workflow (wfName table op)) =
      if op' = op ∧ "workflows" ∈ opts.artifacts then some (.workflow (workflow table columns opts op))
      else files (.workflow (wfName table op)) := by
  have hroute : ∀ files : Files, (if "routes" ∈ opts.artifacts then
      files.write (.route (wfName table op')) (.route (route table columns opts op')) else files)
        (.workflow (wfName table op)) = files (.workflow (wfName table op)) := by
    intro files
    split_ifs
    · simp [Files.write]
    · rfl
  unfold writeOp
  by_cases hwf : "workflows" ∈ opts.artifacts
  · simp only [hwf, if_true, and_true]
    rw [Files.write, hroute]
    by_cases hop : op' = op
    · subst hop
      simp
    · rw [if_neg hop, if_neg fun h => hop (wfName_inj (FileName.workflow.inj h)).symm]
  · simp only [hwf, if_false, and_false]
    exact hroute files

private theorem writeOp_route (files : Files) (op op' : Op) :
    writeOp table columns opts files op' (.route (wfName table op)) =
      if op' = op ∧ "routes" ∈ opts.artifacts then some (.route (route table columns opts op))
      else files (.route (wfName table op)) := by
  have hworkflow : ∀ files : Files, (if "workflows" ∈ opts.artifacts then
      files.write (.workflow (wfName table op')) (.workflow (workflow table columns opts op')) else files)
        (.route (wfName table op)) = files (.route (wfName table op)) := by
    intro files
    split_ifs
    · simp [Files.write]
    · rfl
  unfold writeOp
  rw [hworkflow]
  by_cases hroutes : "routes" ∈ opts.artifacts
  · simp only [hroutes, if_true, and_true]
    rw [Files.write]
    by_cases hop : op' = op
    · subst hop
      simp
    · rw [if_neg hop, if_neg fun h => hop (wfName_inj (FileName.route.inj h)).symm]
  · simp only [hroutes, if_false, and_false]

/-- The files before the loop. -/
private theorem schemas_only (name : String) : ∀ n ∈ [FileName.workflow name, .route name],
    (if "schemas" ∈ opts.artifacts then
      Files.write (fun _ => none) .schemas (.schemas (generateModelSchemas columns opts.scopeCol))
    else fun _ => none) n = none := by
  intro n hn
  split_ifs
  · simp only [List.mem_cons, List.not_mem_nil, or_false] at hn
    rcases hn with rfl | rfl
    · rfl
    · rfl
  · rfl

private theorem generateFiles_workflow (op : Op) : generateFiles table columns opts (.workflow (wfName table op)) =
    if op ∈ opts.operations.filterMap Op.ofName ∧ "workflows" ∈ opts.artifacts then
      some (.workflow (workflow table columns opts op)) else none := by
  unfold generateFiles
  rw [foldl_writes (fun files op' => writeOp_workflow files op op'), schemas_only (wfName table op) _ (by simp)]

private theorem generateFiles_route (op : Op) : generateFiles table columns opts (.route (wfName table op)) =
    if op ∈ opts.operations.filterMap Op.ofName ∧ "routes" ∈ opts.artifacts then
      some (.route (route table columns opts op)) else none := by
  unfold generateFiles
  rw [foldl_writes (fun files op' => writeOp_route files op op'), schemas_only (wfName table op) _ (by simp)]

/-! ### The result -/

private theorem op_cases (op : Op) : op = .create ∨ op = .list ∨ op.OnRow := by
  cases op <;> decide

private theorem scopeCol_of_workflowFits {op : Op} (h : WorkflowFits columns opts op (workflow table columns opts op)) :
    opts.Scoped → opts.scopeCol ∈ columns.map ColInfo.name := by
  rcases op_cases op with rfl | rfl | hop
  · exact (workflowFits_create.1 h).2
  · exact workflowFits_list.1 h
  · exact ((workflowFits_onRow hop).1 h).2

variable (table) in
/-- The files of some operations fit together exactly when the model is suitable for them. -/
private theorem fits_iff_suitable (h : InOrder columns) (ops : List Op) :
    (∀ op ∈ ops, WorkflowFits columns opts op (workflow table columns opts op) ∧
      ("routes" ∈ opts.artifacts →
        RouteFits columns opts op (workflow table columns opts op) (route table columns opts op))) ↔
    Suitable columns opts ops := by
  constructor
  · intro hfits
    refine ⟨?_, ?_, ?_, ?_⟩
    · intro hscoped hsome
      obtain ⟨op, hop⟩ := List.exists_mem_of_ne_nil _ hsome
      exact scopeCol_of_workflowFits (hfits op hop).1 hscoped
    · intro hop
      exact (workflowFits_create.1 (hfits .create hop).1).1
    · intro hop hroutes
      exact (routeFits_create h).1 ((hfits .create hop).2 hroutes)
    · intro op hop hrow
      exact ((workflowFits_onRow hrow).1 (hfits op hop).1).1
  · intro hsuitable op hop
    have hscope : opts.Scoped → opts.scopeCol ∈ columns.map ColInfo.name :=
      fun hscoped => hsuitable.scope hscoped (List.ne_nil_of_mem hop)
    rcases op_cases op with rfl | rfl | hrow
    · exact ⟨workflowFits_create.2 ⟨hsuitable.uuid hop, hscope⟩,
        fun hroutes => (routeFits_create h).2 (hsuitable.create hop hroutes)⟩
    · exact ⟨workflowFits_list.2 hscope, fun _ => routeFits_list⟩
    · have hkey := hsuitable.key op hop hrow
      exact ⟨(workflowFits_onRow hrow).2 ⟨hkey, hscope⟩, fun _ => routeFits_onRow hrow h hkey⟩

end

/-- Whatever the model and the options: the generated workflows fit to the model and to the routes exactly when the
model is suitable for the operations. -/
theorem generateCRUD_fits_iff (model : AnyMap) (opts : CRUDOptions) : FitsTogether model opts ↔
    (tableOf model ≠ "" → "workflows" ∈ (opts.withDefaults (tableOf model)).artifacts →
      Suitable (parseColumns model) (opts.withDefaults (tableOf model))
        ((opts.withDefaults (tableOf model)).operations.filterMap Op.ofName)) := by
  have horder := inOrder_parseColumns model
  unfold FitsTogether generateCRUD
  generalize tableOf model = table
  generalize parseColumns model = columns at horder ⊢
  generalize opts.withDefaults table = opts
  by_cases htable : table = ""
  · simp [htable]
  simp only [htable, if_false, generateFiles_workflow, generateFiles_route]
  constructor
  · intro hfits _ hwf
    refine (fits_iff_suitable table horder _).1 fun op hop => ?_
    obtain ⟨hworkflow, hroute⟩ := hfits op _ (if_pos ⟨hop, hwf⟩)
    exact ⟨hworkflow, fun hroutes => hroute _ (if_pos ⟨hop, hroutes⟩)⟩
  · intro hsuitable op w hw
    split_ifs at hw with hgenerated
    cases hw
    obtain ⟨hworkflow, hroute⟩ :=
      (fits_iff_suitable table horder _).2 (hsuitable htable hgenerated.2) op hgenerated.1
    refine ⟨hworkflow, fun r hr => ?_⟩
    split_ifs at hr with hroutes
    cases hr
    exact hroute hroutes.2

/-- Items with a tenant. -/
def itemsModel : AnyMap := GoMap.ofPairs [("table", .str "items"),
  ("columns", .obj [("id", .obj [("type", .str "uuid"), ("primary_key", .bool true)]),
    ("org_id", .obj [("type", .str "uuid"), ("not_null", .bool true)]), ("title", .obj [("type", .str "text")])])]

/-- A scope column without a scope parameter. -/
def scopeColOnly : CRUDOptions where
  service := ""
  basePath := ""
  operations := []
  artifacts := []
  scopeCol := "org_id"
  scopeParam := ""

/-- The new row reads the scope column from an input that the route does not have. -/
theorem not_fitsTogether_scopeColOnly : ¬FitsTogether itemsModel scopeColOnly := by
  intro hfits
  have htable : tableOf itemsModel ≠ "" := by decide +kernel
  have hworkflow : generateCRUD itemsModel scopeColOnly (.workflow (wfName (tableOf itemsModel) .create)) =
      some (.workflow (workflow (tableOf itemsModel) (parseColumns itemsModel)
        (scopeColOnly.withDefaults (tableOf itemsModel)) .create)) := by
    rw [generateCRUD, if_neg htable, generateFiles_workflow, if_pos (by decide +kernel)]
  have hroute : generateCRUD itemsModel scopeColOnly (.route (wfName (tableOf itemsModel) .create)) =
      some (.route (route (tableOf itemsModel) (parseColumns itemsModel)
        (scopeColOnly.withDefaults (tableOf itemsModel)) .create)) := by
    rw [generateCRUD, if_neg htable, generateFiles_route, if_pos (by decide +kernel)]
  have hreads :=
    ((hfits .create _ hworkflow).2 _ hroute).reads _ (by rw [dbNodes_create]; exact List.mem_singleton_self _)
    "org_id" ⟨"org_id", .input "org_id", .inl (by decide +kernel), rfl⟩
  revert hreads
  decide +kernel

end Noda.Generate.Crud
