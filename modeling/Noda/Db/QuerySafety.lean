import Noda.Db.Find
import Noda.Lib.Assoc

/-!
# The text of queries

What every query that `db.find`, `db.findOne` or `db.count` builds satisfies (`Query.Checked`), by the rules of
`Ensures` along the code, and on what its text depends (`Query.text`), by those of `Agree`.

The keys of `where` become part of the text without a check, so a map that comes with the request must not be its
expression.
-/

namespace Noda.Db

open Outcome

/-! ### Bound values -/

mutual

/-- A value as it shows in the text of a query: GORM binds a value where it writes `?`, writes `IS NULL` for null, and a
list of as many items as an array has. -/
def bound : Json → Json
  | .null => .null
  | .bool _ | .num _ | .str _ => .str "?"
  | .arr items => .arr (boundItems items)
  | .obj fields => .obj (boundFields fields)

def boundItems : List Json → List Json
  | [] => []
  | v :: items => bound v :: boundItems items

def boundFields : List (String × Json) → List (String × Json)
  | [] => []
  | (k, v) :: fields => (k, bound v) :: boundFields fields

end

/-- The clause with its bound values left out. -/
def Clause.text : Clause → Clause
  | whereMap conditions => whereMap (conditions.mapVal fun _ => bound)
  | whereText query params => whereText query (params.map bound)
  | having query params => having query (params.map bound)
  | joins query params => joins query (params.map bound)
  | clause => clause

def Query.text (q : Query) : Query := ⟨q.table, q.clauses.map Clause.text⟩

/-! ### Checked texts -/

/-- Where the conditions of `where` come from.  GORM writes their keys into the text, and no key is checked: those of an
object stand in the config, and an expression may be resolved to any map. -/
def Conditions (E : Env) (config conditions : AnyMap) : Prop :=
  (∃ fields, config.lookup "where" = some (.obj fields) ∧ ∀ k ∈ conditions, k ∈ fields.map Prod.fst) ∨
    ∃ expr val, config.lookup "where" = some (.str expr) ∧ E.resolve expr = .ok val ∧ val.asMap = some conditions

/-- What the text of a clause is made of. -/
def Clause.Checked (E : Env) (config : AnyMap) : Clause → Prop
  | whereMap conditions => Conditions E config conditions
  | limit _ | offset _ => True
  | whereText query _ => Fragment E.unicode query
  | select cols => ∀ col ∈ cols, Identifier col
  | order clause => OrderClause clause
  | group cols => ∀ col ∈ splitComma cols, Identifier (trimSpace col)
  | having query _ => Fragment E.unicode query
  | joins query _ => ∃ type ∈ joinTypes, ∃ table on, Identifier table ∧ Fragment E.unicode on ∧
    query = type ++ " JOIN " ++ table ++ " ON " ++ on

structure Query.Checked (E : Env) (config : AnyMap) (q : Query) : Prop where
  table : Identifier q.table
  clauses : ∀ clause ∈ q.clauses, clause.Checked E config

variable {E : Env} {config : AnyMap}

/-! ### Every clause is well formed -/

abbrev Checked (E : Env) (config : AnyMap) (clauses : List Clause) : Prop := ∀ clause ∈ clauses, clause.Checked E config

private theorem checked_append {clauses clauses' : List Clause} (h : Checked E config clauses)
    (h' : Checked E config clauses') :
    Checked E config (clauses ++ clauses') :=
  fun clause hc => (List.mem_append.1 hc).elim (h clause) (h' clause)

private theorem checked_nil : Checked E config [] := fun _ h => absurd h List.not_mem_nil

private theorem checked_singleton {clause : Clause} (h : clause.Checked E config) : Checked E config [clause] :=
  fun _ hc => List.mem_singleton.1 hc ▸ h

private theorem ensures_check {P : Prop} {x : Except String Unit} (h : x = .ok () ↔ P) (before : String) :
    Ensures (fun _ => P) (within before x) :=
  Ensures.mapError fun _ hx => h.1 hx

private theorem resolveFragment_checked (resolving name checking expr : String) :
    Ensures (Fragment E.unicode) (resolveFragment E resolving name checking expr) := by
  refine Ensures.trivial.bind fun val _ => ?_
  cases val with
  | str query =>
    refine (ensures_check validateSQLFragment_iff checking).bind fun _ hquery => ?_
    exact Ensures.ok hquery
  | null | bool _ | num _ | arr _ | obj _ => exact Ensures.error

private theorem resolveWhereClause_checked : Ensures (Checked E config) (resolveWhereClause E config) := by
  rw [resolveWhereClause]
  split
  · exact Ensures.ok checked_nil
  · split
    · exact Ensures.error
    · split
      · exact Ensures.error
      · refine (resolveFragment_checked _ _ _ _).bind fun query hquery => Ensures.trivial.bind fun params _ => ?_
        exact Ensures.ok (checked_singleton hquery)
      · exact Ensures.error

private theorem validateJoinType_iff {m : AnyMap} :
    validateJoinType E.unicode (joinType E m) = .ok () ↔ joinType E m ∈ joinTypes := by
  have hupper : E.unicode.upper (joinType E m) = joinType E m := by
    rw [joinType]
    split
    · exact E.unicode.upper_upper _
    · have hall : ("INNER".toList.all fun c => c.toNat < 128 && c.toUpper = c) = true := by decide +kernel
      refine E.unicode.upper_capitals fun c hc => ?_
      have hc := List.all_eq_true.1 hall c hc
      simpa using hc
  rw [validateJoinType, hupper]
  split_ifs with h
  · exact ⟨fun _ => h, fun _ => rfl⟩
  · exact ⟨nofun, fun h' => absurd h' h⟩

private theorem resolveJoin_checked (i : Nat) (item : Json) :
    Ensures (Clause.Checked E config) (resolveJoin E i item) := by
  rw [resolveJoin]
  split
  · exact Ensures.error
  · refine (ensures_check validateJoinType_iff _).bind fun _ htype => ?_
    refine Ensures.trivial.bind fun table _ => ?_
    refine (ensures_check validateIdentifier_iff _).bind fun _ htable => ?_
    refine Ensures.trivial.bind fun on _ => ?_
    refine (ensures_check validateSQLFragment_iff _).bind fun _ hon => ?_
    refine Ensures.trivial.bind fun params _ => ?_
    exact Ensures.ok ⟨_, htype, table, on, htable, hon, rfl⟩

private theorem resolveJoinItems_checked (i : Nat) (items : List Json) :
    Ensures (Checked E config) (resolveJoinItems E i items) := by
  induction items generalizing i with
  | nil => exact Ensures.ok checked_nil
  | cons item items ih =>
    have hitem : Ensures (Clause.Checked E config) (resolveJoin E i item) := resolveJoin_checked i item
    refine hitem.bind fun join hjoin => (ih (i + 1)).bind fun joins hjoins => ?_
    exact Ensures.ok (List.forall_mem_cons.2 ⟨hjoin, hjoins⟩)

private theorem resolveJoins_checked : Ensures (Checked E config) (resolveJoins E config) := by
  rw [resolveJoins]
  split
  · exact Ensures.ok checked_nil
  · exact resolveJoinItems_checked 0 _
  · exact Ensures.error

private theorem resolveColumns_checked (i : Nat) (items : List Json) :
    Ensures (fun cols => ∀ col ∈ cols, Identifier col) (resolveColumns E i items) := by
  induction items generalizing i with
  | nil => exact Ensures.ok fun _ h => absurd h List.not_mem_nil
  | cons item items ih =>
    cases item with
    | str expr =>
      refine Ensures.trivial.bind fun val _ => ?_
      cases val with
      | str col =>
        refine (ensures_check validateIdentifier_iff _).bind fun _ hcol => (ih (i + 1)).bind fun cols hcols => ?_
        exact Ensures.ok (List.forall_mem_cons.2 ⟨hcol, hcols⟩)
      | null | bool _ | num _ | arr _ | obj _ => exact Ensures.error
    | null | bool _ | num _ | arr _ | obj _ => exact Ensures.error

private theorem applySelect_checked : Ensures (Checked E config) (applySelect E config) := by
  have hcols : Ensures (fun cols => ∀ col ∈ cols, Identifier col) (resolveSelectColumns E config) := by
    rw [resolveSelectColumns]
    split
    · exact Ensures.ok fun _ h => absurd h List.not_mem_nil
    · exact resolveColumns_checked 0 _
    · exact Ensures.error
  refine hcols.bind fun cols hcols => ?_
  cases cols with
  | nil => exact Ensures.ok checked_nil
  | cons col cols => exact Ensures.ok (checked_singleton hcols)

private theorem applyOrder_checked : Ensures (Checked E config) (applyOrder E config) := by
  refine Ensures.trivial.bind fun order _ => ?_
  cases order with
  | none => exact Ensures.ok checked_nil
  | some order =>
    refine (ensures_check validateOrderClause_iff _).bind fun _ horder => ?_
    exact Ensures.ok (checked_singleton horder)

private theorem applyGroup_checked : Ensures (Checked E config) (applyGroup E config) := by
  refine Ensures.trivial.bind fun group _ => ?_
  cases group with
  | none => exact Ensures.ok checked_nil
  | some group =>
    have hcols : ((splitComma group).forM fun col => validateIdentifier (trimSpace col)) = .ok () ↔
        ∀ col ∈ splitComma group, Identifier (trimSpace col) :=
      Outcome.forM_eq_ok.trans (forall₂_congr fun col _ => validateIdentifier_iff)
    refine (ensures_check hcols _).bind fun _ hgroup => ?_
    exact Ensures.ok (checked_singleton hgroup)

private theorem applyHaving_checked : Ensures (Checked E config) (applyHaving E config) := by
  rw [applyHaving]
  split
  · refine (resolveFragment_checked _ _ _ _).bind fun query hquery => ?_
    exact Ensures.ok (checked_singleton hquery)
  · simp only
    split
    · split_ifs
      · exact Ensures.error
      · refine (resolveFragment_checked _ _ _ _).bind fun query hquery => Ensures.trivial.bind fun params _ => ?_
        exact Ensures.ok (checked_singleton hquery)
    · exact Ensures.error
  · exact Ensures.ok checked_nil

private theorem checked_map {α : Type} (f : α → Clause) {l : List α} (h : ∀ a ∈ l, (f a).Checked E config) :
    Checked E config (l.map f) := by
  intro clause hc
  obtain ⟨a, ha, rfl⟩ := List.mem_map.1 hc
  exact h a ha

private theorem resolveFields_keys (path : String) (fields : List (String × Json)) :
    Ensures (fun fs => fs.map Prod.fst = fields.map Prod.fst) (resolveFields E path fields) := by
  induction fields with
  | nil => exact Ensures.ok rfl
  | cons field fields ih =>
    refine Ensures.trivial.bind fun val _ => ih.bind fun fs hfs => Ensures.ok ?_
    rw [List.map_cons, List.map_cons, hfs]

private theorem resolveOptionalMap_conditions :
    Ensures (fun conditions => ∀ m ∈ conditions, Conditions E config m) (resolveOptionalMap E config "where") := by
  rw [resolveOptionalMap]
  cases hraw : config.lookup "where" with
  | none => exact Ensures.ok nofun
  | some raw =>
    have hconditions : Ensures (Conditions E config) (resolveMapValue E "where" raw) := by
      cases raw with
      | obj fields =>
        refine (resolveFields_keys "where" fields).bind fun fs hfs => Ensures.ok (.inl ⟨fields, hraw, fun k hk => ?_⟩)
        rw [← hfs]
        exact GoMap.mem_ofPairs.1 hk
      | str expr =>
        have hval : Ensures (fun val => E.resolve expr = .ok val) (E.resolve expr) := fun _ h => h
        refine hval.mapError.bind fun val hval => ?_
        cases hmap : val.asMap with
        | none => exact Ensures.error
        | some m => exact Ensures.ok (.inr ⟨expr, val, hraw, hval, hmap⟩)
      | null | bool _ | num _ | arr _ => exact Ensures.error
    refine hconditions.bind fun m hm => Ensures.ok fun m' hm' => ?_
    cases hm'
    exact hm

private theorem applyWhere_checked : Ensures (Checked E config) (applyWhere E config) := by
  refine resolveOptionalMap_conditions.bind fun conditions hconditions => ?_
  refine resolveWhereClause_checked.bind fun clauses hclauses => ?_
  have hwhere : Checked E config (conditions.toList.map .whereMap) :=
    checked_map .whereMap fun m hm => hconditions m (Option.mem_toList.1 hm)
  exact Ensures.ok (checked_append hwhere hclauses)

private theorem applyQueryOptions_checked : Ensures (Checked E config) (applyQueryOptions E config) := by
  refine applySelect_checked.bind fun select hselect => applyOrder_checked.bind fun order horder => ?_
  refine Ensures.trivial.bind fun limit _ => Ensures.trivial.bind fun offset _ => ?_
  refine applyGroup_checked.bind fun group hgroup => applyHaving_checked.bind fun having hhaving => ?_
  refine resolveJoins_checked.bind fun joins hjoins => Ensures.ok ?_
  have hlimit : Checked E config (limit.toList.map .limit) := checked_map .limit fun _ _ => True.intro
  have hoffset : Checked E config (offset.toList.map .offset) := checked_map .offset fun _ _ => True.intro
  have hlimited := checked_append (checked_append (checked_append hselect horder) hlimit) hoffset
  exact checked_append (checked_append (checked_append hlimited hgroup) hhaving) hjoins

private theorem buildQuery_checked {node : String} {clauses : Except String (List Clause)}
    (h : Ensures (Checked E config) clauses) :
    Ensures (Query.Checked E config) (buildQuery E config node clauses) := by
  refine Ensures.mapError (Ensures.trivial.bind fun table _ => ?_)
  have htable : Ensures (fun _ => Identifier table) (validateIdentifier table) :=
    fun _ hok => validateIdentifier_iff.1 hok
  exact htable.bind fun _ htable => h.bind fun clauses hclauses => Ensures.ok ⟨htable, hclauses⟩

/-! ### What the text depends on -/

/-- The expression of a field, if it has one. -/
def exprAt (m : AnyMap) (key : String) : List String := ((m.lookup key).bind Json.asStr).toList

/-- The expression of the field `query` of an object. -/
def queryAt (m : AnyMap) (key : String) : List String :=
  match (m.lookup key).bind Json.asMap with
  | some m => exprAt m "query"
  | none => []

private theorem mem_exprAt {m : AnyMap} {key expr : String} (h : m.lookup key = some (.str expr)) :
    expr ∈ exprAt m key := by
  rw [exprAt, h]
  exact List.mem_singleton_self expr

private theorem mem_queryAt {m m' : AnyMap} {key expr : String} {raw : Json} (hraw : m.lookup key = some raw)
    (hm : raw.asMap = some m') (h : m'.lookup "query" = some (.str expr)) : expr ∈ queryAt m key := by
  rw [queryAt, hraw, Option.bind_some, hm]
  exact mem_exprAt h

def columnsAt (m : AnyMap) (key : String) : List String :=
  match (m.lookup key).bind Json.asArr with
  | some items => items.filterMap Json.asStr
  | none => []

/-- The expressions of a config that are resolved to text, or to a number that is written out. -/
def textExprs (config : AnyMap) : List String :=
  exprAt config "table" ++ columnsAt config "select" ++ exprAt config "order" ++ exprAt config "limit" ++
    exprAt config "offset" ++ exprAt config "group" ++ queryAt config "where_clause" ++ exprAt config "having" ++
    queryAt config "having"

mutual

/-- The strings within a value. -/
def strings : Json → List String
  | .str s => [s]
  | .arr items => itemStrings items
  | .obj fields => fieldStrings fields
  | _ => []

def itemStrings : List Json → List String
  | [] => []
  | v :: items => strings v ++ itemStrings items

def fieldStrings : List (String × Json) → List String
  | [] => []
  | (_, v) :: fields => strings v ++ fieldStrings fields

end

def stringsAt (m : AnyMap) (key : String) : List String := (m.lookup key).elim [] strings

/-- The expressions among which those of the conditions and the parameters are. -/
def valueExprs (config : AnyMap) : List String :=
  stringsAt config "where" ++ stringsAt config "where_clause" ++ stringsAt config "having" ++ stringsAt config "joins"

/-- The same node, for another request. -/
def Env.for (E : Env) (resolve : String → Except String Json) : Env := { E with resolve }

variable {resolve : String → Except String Json}

/-- Values that show alike in the text. -/
def SameForm (v v' : Json) : Prop := bound v = bound v'

/-- Requests that differ only in the values that are bound. -/
structure Alike (E : Env) (resolve : String → Except String Json) (config : AnyMap) : Prop where
  texts : ∀ expr ∈ textExprs config, resolve expr = E.resolve expr
  values : ∀ expr ∈ valueExprs config, Agree SameForm (resolve expr) (E.resolve expr)

abbrev SameText (clauses clauses' : List Clause) : Prop := clauses.map Clause.text = clauses'.map Clause.text

private theorem sameText_append {c₁ c₁' c₂ c₂' : List Clause} (h₁ : SameText c₁ c₁') (h₂ : SameText c₂ c₂') :
    SameText (c₁ ++ c₂) (c₁' ++ c₂') := by
  rw [SameText, List.map_append, h₁, h₂, List.map_append]

private theorem resolveStringValue_congr {raw : Json} (key : String)
    (h : ∀ expr ∈ raw.asStr, resolve expr = E.resolve expr) :
    resolveStringValue (E.for resolve) key raw = resolveStringValue E key raw := by
  cases raw with
  | str expr =>
    simp only [resolveStringValue, Env.for, h expr rfl]
  | null | bool _ | num _ | arr _ | obj _ => rfl

private theorem resolveString_congr (key : String) (h : ∀ expr ∈ exprAt config key, resolve expr = E.resolve expr) :
    resolveString (E.for resolve) config key = resolveString E config key := by
  rw [resolveString, resolveString]
  cases hraw : config.lookup key with
  | none => rfl
  | some raw =>
    rw [exprAt, hraw] at h
    exact resolveStringValue_congr key fun expr hexpr => h expr (Option.mem_toList.2 hexpr)

private theorem resolveOptionalString_congr (key : String)
    (h : ∀ expr ∈ exprAt config key, resolve expr = E.resolve expr) :
    resolveOptionalString (E.for resolve) config key = resolveOptionalString E config key := by
  rw [resolveOptionalString, resolveOptionalString]
  cases hraw : config.lookup key with
  | none => rfl
  | some raw =>
    rw [exprAt, hraw] at h
    have heq := resolveStringValue_congr key fun expr hexpr => h expr (Option.mem_toList.2 hexpr)
    simp only [heq]

private theorem resolveFragment_congr (resolving name checking : String) {expr : String}
    (h : resolve expr = E.resolve expr) :
    resolveFragment (E.for resolve) resolving name checking expr = resolveFragment E resolving name checking expr := by
  simp only [resolveFragment, Env.for, h]

private theorem resolveColumns_congr (i : Nat) {items : List Json}
    (h : ∀ expr ∈ items.filterMap Json.asStr, resolve expr = E.resolve expr) :
    resolveColumns (E.for resolve) i items = resolveColumns E i items := by
  induction items generalizing i with
  | nil => rfl
  | cons item items ih =>
    cases item with
    | str expr =>
      have hexpr := h expr List.mem_cons_self
      have hrest := ih (i + 1) fun e he => h e (List.mem_cons_of_mem _ he)
      rw [resolveColumns, resolveColumns, hrest]
      simp only [Env.for, hexpr]
    | null | bool _ | num _ | arr _ | obj _ => rfl

private theorem applySelect_congr (h : ∀ expr ∈ columnsAt config "select", resolve expr = E.resolve expr) :
    applySelect (E.for resolve) config = applySelect E config := by
  have hcols : resolveSelectColumns (E.for resolve) config = resolveSelectColumns E config := by
    rw [resolveSelectColumns, resolveSelectColumns]
    split
    · rfl
    · rename_i items hitems
      rw [columnsAt, hitems] at h
      exact resolveColumns_congr 0 h
    · rfl
  rw [applySelect, applySelect, hcols]

private theorem applyOrder_congr (h : ∀ expr ∈ exprAt config "order", resolve expr = E.resolve expr) :
    applyOrder (E.for resolve) config = applyOrder E config := by
  rw [applyOrder, applyOrder, resolveOptionalString_congr "order" h]

private theorem applyGroup_congr (h : ∀ expr ∈ exprAt config "group", resolve expr = E.resolve expr) :
    applyGroup (E.for resolve) config = applyGroup E config := by
  rw [applyGroup, applyGroup, resolveOptionalString_congr "group" h]

private theorem resolveOptionalInt_congr (key : String)
    (h : ∀ expr ∈ exprAt config key, resolve expr = E.resolve expr) :
    resolveOptionalInt (E.for resolve) config key = resolveOptionalInt E config key := by
  rw [resolveOptionalInt, resolveOptionalInt]
  split
  · rfl
  · rfl
  · rename_i expr hexpr
    simp only [Env.for, h expr (mem_exprAt hexpr)]
    rfl
  · rfl

/-! ### Values of one form -/

private theorem boundItems_eq (items : List Json) : boundItems items = items.map bound := by
  induction items with
  | nil => rfl
  | cons v items ih => rw [boundItems, ih, List.map_cons]

private theorem boundFields_eq (fields : List (String × Json)) :
    boundFields fields = fields.map (Prod.map id bound) := by
  induction fields with
  | nil => rfl
  | cons field fields ih => rw [boundFields, ih, List.map_cons, Prod.map, id]

private theorem strings_subset_fields {k : String} {v : Json} {fields : List (String × Json)} (h : (k, v) ∈ fields) :
    strings v ⊆ fieldStrings fields := by
  induction fields with
  | nil => exact absurd h List.not_mem_nil
  | cons field fields ih =>
    rw [fieldStrings]
    rcases List.mem_cons.1 h with rfl | h
    · exact List.subset_append_left _ _
    · exact List.Subset.trans (ih h) (List.subset_append_right _ _)

private theorem stringsAt_subset {raw : Json} {m : AnyMap} (h : raw.asMap = some m) (key : String) :
    stringsAt m key ⊆ strings raw := by
  cases raw with
  | obj fields =>
    cases h
    rw [stringsAt, GoMap.lookup_ofPairs]
    cases hv : fields.lookup key with
    | none => exact List.nil_subset _
    | some v => exact strings_subset_fields (Assoc.mem_of_lookup hv)
  | null | bool _ | num _ | str _ | arr _ => cases h

mutual

theorem resolveNested_agree : ∀ (path : String) (v : Json),
    (∀ expr ∈ strings v, Agree SameForm (resolve expr) (E.resolve expr)) →
      Agree SameForm (resolveNested (E.for resolve) path v) (resolveNested E path v)
  | _, .null, _ | _, .bool _, _ | _, .num _, _ => Agree.ok rfl
  | _, .str expr, h => (h expr (List.mem_singleton_self expr)).mapError
  | path, .arr items, h => (resolveItems_agree path 0 items h).bind fun _ _ hvs => Agree.ok (congrArg Json.arr hvs)
  | path, .obj fields, h => (resolveFields_agree path fields h).bind fun _ _ hfs => Agree.ok (congrArg Json.obj hfs)

theorem resolveItems_agree : ∀ (path : String) (i : Nat) (items : List Json),
    (∀ expr ∈ itemStrings items, Agree SameForm (resolve expr) (E.resolve expr)) →
      Agree (fun vs vs' => boundItems vs = boundItems vs') (resolveItems (E.for resolve) path i items)
        (resolveItems E path i items)
  | _, _, [], _ => Agree.ok rfl
  | path, i, v :: items, h =>
    (resolveNested_agree _ v fun expr he => h expr (List.mem_append_left _ he)).bind fun _ _ hw =>
      (resolveItems_agree path (i + 1) items fun expr he => h expr (List.mem_append_right _ he)).bind fun _ _ hws =>
        Agree.ok (congrArg₂ List.cons hw hws)

theorem resolveFields_agree : ∀ (path : String) (fields : List (String × Json)),
    (∀ expr ∈ fieldStrings fields, Agree SameForm (resolve expr) (E.resolve expr)) →
      Agree (fun fs fs' => boundFields fs = boundFields fs') (resolveFields (E.for resolve) path fields)
        (resolveFields E path fields)
  | _, [], _ => Agree.ok rfl
  | path, (k, v) :: fields, h =>
    (resolveNested_agree _ v fun expr he => h expr (List.mem_append_left _ he)).bind fun _ _ hw =>
      (resolveFields_agree path fields fun expr he => h expr (List.mem_append_right _ he)).bind fun _ _ hfs =>
        Agree.ok (congrArg₂ List.cons (congrArg (Prod.mk k) hw) hfs)

end

private theorem mapVal_bound {fields fields' : List (String × Json)} (h : boundFields fields = boundFields fields') :
    (GoMap.ofPairs fields).mapVal (fun _ => bound) = (GoMap.ofPairs fields').mapVal fun _ => bound := by
  rw [GoMap.mapVal_ofPairs, GoMap.mapVal_ofPairs, ← boundFields_eq, h, boundFields_eq]

/-- Maps whose values show alike in the text. -/
def SameForms (m m' : AnyMap) : Prop := m.mapVal (fun _ => bound) = m'.mapVal fun _ => bound

private theorem asMap_agree {v v' : Json} (h : SameForm v v') {m m' : AnyMap} (hm : v.asMap = some m)
    (hm' : v'.asMap = some m') :
    SameForms m m' := by
  cases v with
  | obj fields =>
    cases v' with
    | obj fields' =>
      cases hm
      cases hm'
      exact mapVal_bound (Json.obj.inj h)
    | null | bool _ | num _ | str _ | arr _ => cases hm'
  | null | bool _ | num _ | str _ | arr _ => cases hm

private theorem asArr_agree {v v' : Json} (h : SameForm v v') {vs vs' : List Json} (hvs : v.asArr = some vs)
    (hvs' : v'.asArr = some vs') : vs.map bound = vs'.map bound := by
  cases v with
  | arr items =>
    cases v' with
    | arr items' =>
      cases hvs
      cases hvs'
      rw [← boundItems_eq, ← boundItems_eq]
      exact Json.arr.inj h
    | null | bool _ | num _ | str _ | obj _ => cases hvs'
  | null | bool _ | num _ | str _ | obj _ => cases hvs

private theorem resolveMapValue_agree (key : String) {raw : Json}
    (h : ∀ expr ∈ strings raw, Agree SameForm (resolve expr) (E.resolve expr)) :
    Agree SameForms (resolveMapValue (E.for resolve) key raw) (resolveMapValue E key raw) := by
  cases raw with
  | obj fields => exact (resolveFields_agree key fields h).bind fun fs fs' hfs => Agree.ok (mapVal_bound hfs)
  | str expr =>
    refine (h expr (List.mem_singleton_self expr)).mapError.bind fun v v' hv => ?_
    cases hm : v.asMap with
    | none => exact Agree.left
    | some m =>
      cases hm' : v'.asMap with
      | none => exact fun _ _ _ h => by cases h
      | some m' => exact Agree.ok (asMap_agree hv hm hm')
  | null | bool _ | num _ | arr _ => exact Agree.left

private theorem resolveParams_agree (key : String) (i : Nat) {items : List Json}
    (h : ∀ expr ∈ itemStrings items, Agree SameForm (resolve expr) (E.resolve expr)) :
    Agree (fun vs vs' => vs.map bound = vs'.map bound) (resolveParams (E.for resolve) key i items)
      (resolveParams E key i items) := by
  induction items generalizing i with
  | nil => exact Agree.ok rfl
  | cons item items ih =>
    have hrest := ih (i + 1) fun expr he => h expr (List.mem_append_right _ he)
    cases item with
    | str expr =>
      have hexpr := h expr (List.mem_append_left _ (List.mem_singleton_self expr))
      exact hexpr.mapError.bind fun v v' hv => hrest.bind fun vs vs' hvs => Agree.ok (congrArg₂ List.cons hv hvs)
    | null | bool _ | num _ | arr _ | obj _ =>
      exact hrest.bind fun vs vs' hvs => Agree.ok (congrArg (List.cons _) hvs)

private theorem resolveOptionalArray_agree {m : AnyMap} (key : String)
    (h : ∀ expr ∈ stringsAt m key, Agree SameForm (resolve expr) (E.resolve expr)) :
    Agree (fun vs vs' => vs.map bound = vs'.map bound) (resolveOptionalArray (E.for resolve) m key)
      (resolveOptionalArray E m key) := by
  rw [resolveOptionalArray, resolveOptionalArray]
  split
  · exact Agree.ok rfl
  · rename_i items hitems
    rw [stringsAt, hitems] at h
    exact resolveParams_agree key 0 h
  · rename_i expr hexpr
    rw [stringsAt, hexpr] at h
    refine (h expr (List.mem_singleton_self expr)).mapError.bind fun v v' hv => ?_
    cases hvs : v.asArr with
    | none => exact Agree.left
    | some vs =>
      cases hvs' : v'.asArr with
      | none => exact fun _ _ _ h => by cases h
      | some vs' => exact Agree.ok (asArr_agree hv hvs hvs')
  · exact Agree.left

/-! ### Clauses of one text -/

theorem Alike.params (h : Alike E resolve config) {key : String} (hkey : key ∈ ["where_clause", "having"]) {raw : Json}
    {m : AnyMap} (hraw : config.lookup key = some raw) (hm : raw.asMap = some m) :
    ∀ expr ∈ stringsAt m "params", Agree SameForm (resolve expr) (E.resolve expr) := by
  refine fun expr he => h.values expr ?_
  have hstrings : expr ∈ stringsAt config key := by
    rw [stringsAt, hraw]
    exact stringsAt_subset hm _ he
  rcases List.mem_pair.1 hkey with rfl | rfl
  · simp [valueExprs, hstrings]
  · simp [valueExprs, hstrings]

private theorem resolveWhereClause_agree (h : Alike E resolve config) :
    Agree SameText (resolveWhereClause (E.for resolve) config) (resolveWhereClause E config) := by
  rw [resolveWhereClause, resolveWhereClause]
  split
  · exact Agree.ok rfl
  · rename_i raw hraw
    split
    · exact Agree.left
    · rename_i m hm
      split
      · exact Agree.left
      · rename_i expr hexpr
        have hparams := resolveOptionalArray_agree "params" (h.params (by simp) hraw hm)
        rw [resolveFragment_congr _ _ _ (h.texts expr (by simp [textExprs, mem_queryAt hraw hm hexpr]))]
        refine Agree.refl.bind fun query query' hquery => hparams.mapError.bind fun params params' hparams => ?_
        exact Agree.ok (by simp only [SameText, List.map_cons, List.map_nil, Clause.text, hquery, hparams])
      · exact Agree.left

private theorem applyHaving_agree (h : Alike E resolve config) :
    Agree SameText (applyHaving (E.for resolve) config) (applyHaving E config) := by
  rw [applyHaving, applyHaving]
  split
  · rename_i expr hexpr
    rw [resolveFragment_congr _ _ _ (h.texts expr (by simp [textExprs, mem_exprAt hexpr]))]
    exact Agree.refl.bind fun query query' hquery => Agree.ok (by rw [hquery])
  · rename_i fields hfields
    simp only
    split
    · rename_i expr hexpr
      split_ifs
      · exact Agree.left
      · have hparams := resolveOptionalArray_agree "params" (h.params (by simp) hfields rfl)
        rw [resolveFragment_congr _ _ _ (h.texts expr (by simp [textExprs, mem_queryAt hfields rfl hexpr]))]
        refine Agree.refl.bind fun query query' hquery => hparams.mapError.bind fun params params' hparams => ?_
        exact Agree.ok (by simp only [SameText, List.map_cons, List.map_nil, Clause.text, hquery, hparams])
    · exact Agree.left
  · exact Agree.ok rfl

private theorem resolveJoin_agree (i : Nat) {item : Json}
    (h : ∀ expr ∈ strings item, Agree SameForm (resolve expr) (E.resolve expr)) :
    Agree (fun c c' => c.text = c'.text) (resolveJoin (E.for resolve) i item) (resolveJoin E i item) := by
  rw [resolveJoin, resolveJoin]
  split
  · exact Agree.left
  · rename_i m hm
    have hparams := resolveOptionalArray_agree "params" fun expr he => h expr (stringsAt_subset hm _ he)
    refine Agree.refl.bind fun _ _ _ => Agree.refl.bind fun table table' htable => ?_
    refine Agree.trivial.bind fun _ _ _ => Agree.refl.bind fun on on' hon => ?_
    refine Agree.trivial.bind fun _ _ _ => hparams.mapError.bind fun params params' hparams => Agree.ok ?_
    rw [Clause.text, Clause.text, htable, hon, hparams]
    rfl

private theorem resolveJoinItems_agree (i : Nat) {items : List Json}
    (h : ∀ expr ∈ itemStrings items, Agree SameForm (resolve expr) (E.resolve expr)) :
    Agree SameText (resolveJoinItems (E.for resolve) i items) (resolveJoinItems E i items) := by
  induction items generalizing i with
  | nil => exact Agree.ok rfl
  | cons item items ih =>
    have hitem := resolveJoin_agree i fun expr he => h expr (List.mem_append_left _ he)
    have hitems := ih (i + 1) fun expr he => h expr (List.mem_append_right _ he)
    refine hitem.bind fun join join' hjoin => hitems.bind fun joins joins' hjoins => ?_
    exact Agree.ok (by rw [SameText, List.map_cons, List.map_cons, hjoin, hjoins])

private theorem resolveJoins_agree (h : Alike E resolve config) :
    Agree SameText (resolveJoins (E.for resolve) config) (resolveJoins E config) := by
  rw [resolveJoins, resolveJoins]
  split
  · exact Agree.ok rfl
  · rename_i items hitems
    refine resolveJoinItems_agree 0 fun expr he => h.values expr ?_
    have hstrings : expr ∈ stringsAt config "joins" := by rwa [stringsAt, hitems]
    simp [valueExprs, hstrings]
  · exact Agree.left

private theorem applyWhere_agree (h : Alike E resolve config) :
    Agree SameText (applyWhere (E.for resolve) config) (applyWhere E config) := by
  have hmap : Agree (fun x y => SameText (x.toList.map .whereMap) (y.toList.map .whereMap))
      (resolveOptionalMap (E.for resolve) config "where") (resolveOptionalMap E config "where") := by
    rw [resolveOptionalMap, resolveOptionalMap]
    cases hraw : config.lookup "where" with
    | none => exact Agree.ok rfl
    | some raw =>
      have hraw : ∀ expr ∈ strings raw, Agree SameForm (resolve expr) (E.resolve expr) := by
        refine fun expr he => h.values expr ?_
        have hstrings : expr ∈ stringsAt config "where" := by rwa [stringsAt, hraw]
        simp [valueExprs, hstrings]
      refine (resolveMapValue_agree "where" hraw).bind fun m m' hm => Agree.ok ?_
      exact congrArg (fun m => [Clause.whereMap m]) hm
  refine hmap.bind fun conditions conditions' hconditions => ?_
  exact (resolveWhereClause_agree h).bind fun clauses clauses' hclauses =>
    Agree.ok (sameText_append hconditions hclauses)

private theorem applyQueryOptions_agree (h : Alike E resolve config) :
    Agree SameText (applyQueryOptions (E.for resolve) config) (applyQueryOptions E config) := by
  have hexpr : ∀ exprs : List String, exprs ⊆ textExprs config → ∀ expr ∈ exprs, resolve expr = E.resolve expr :=
    fun exprs hsub expr he => h.texts expr (hsub he)
  rw [applyQueryOptions, applyQueryOptions, applySelect_congr (hexpr _ fun e he => by simp [textExprs, he]),
    applyOrder_congr (hexpr _ fun e he => by simp [textExprs, he]),
    resolveOptionalInt_congr "limit" (hexpr _ fun e he => by simp [textExprs, he]),
    resolveOptionalInt_congr "offset" (hexpr _ fun e he => by simp [textExprs, he]),
    applyGroup_congr (hexpr _ fun e he => by simp [textExprs, he])]
  refine Agree.refl.bind fun select select' hselect => Agree.refl.bind fun order order' horder => ?_
  refine Agree.refl.bind fun limit limit' hlimit => Agree.refl.bind fun offset offset' hoffset => ?_
  refine Agree.refl.bind fun group group' hgroup => (applyHaving_agree h).bind fun having having' hhaving => ?_
  refine (resolveJoins_agree h).bind fun joins joins' hjoins => Agree.ok ?_
  subst hselect horder hlimit hoffset hgroup
  exact sameText_append (sameText_append rfl hhaving) hjoins

private theorem buildQuery_agree {node : String} {clauses clauses' : Except String (List Clause)}
    (h : Alike E resolve config)
    (hclauses : Agree SameText clauses clauses') :
    Agree (fun q q' => q.text = q'.text) (buildQuery (E.for resolve) config node clauses)
      (buildQuery E config node clauses') := by
  refine Agree.mapError ?_
  rw [resolveString_congr "table" fun expr he => h.texts expr (by simp [textExprs, he])]
  refine Agree.refl.bind fun table table' htable => Agree.trivial.bind fun _ _ _ => ?_
  refine hclauses.bind fun clauses clauses' hclauses => Agree.ok ?_
  rw [Query.text, Query.text, htable, hclauses]

/-! ### The nodes -/

/-- What a node that reads from the database builds. -/
inductive Reader where
  | find
  | findOne
  | count
  deriving DecidableEq, Repr

def Reader.build (E : Env) (config : AnyMap) : Reader → Except String Query
  | find => Db.find E config
  | findOne => Db.findOne E config
  | count => Db.count E config

/-- Whatever the request brings along, the text of a query is made of what has been checked and of the keys of `where`,
which are not; and requests that differ only in the values that are bound yield the same text. -/
theorem queries_safe (E : Env) (config : AnyMap) (node : Reader) {q : Query} (hq : node.build E config = .ok q) :
    q.Checked E config ∧ ∀ resolve q', Alike E resolve config → node.build (E.for resolve) config = .ok q' →
      q'.text = q.text := by
  cases node with
  | find =>
    refine ⟨buildQuery_checked ?_ q hq, fun resolve q' h hq' => buildQuery_agree h ?_ q' q hq' hq⟩
    · exact applyWhere_checked.bind fun _ hw => applyQueryOptions_checked.bind fun _ ho =>
        Ensures.ok (checked_append hw ho)
    · exact (applyWhere_agree h).bind fun _ _ hw => (applyQueryOptions_agree h).bind fun _ _ ho =>
        Agree.ok (sameText_append hw ho)
  | findOne =>
    refine ⟨buildQuery_checked ?_ q hq, fun resolve q' h hq' => buildQuery_agree h ?_ q' q hq' hq⟩
    · exact applyWhere_checked.bind fun _ hw => applyQueryOptions_checked.bind fun _ ho =>
        Ensures.ok (checked_append (checked_append hw ho) (checked_singleton True.intro))
    · exact (applyWhere_agree h).bind fun _ _ hw => (applyQueryOptions_agree h).bind fun _ _ ho =>
        Agree.ok (sameText_append (sameText_append hw ho) rfl)
  | count =>
    refine ⟨buildQuery_checked ?_ q hq, fun resolve q' h hq' => buildQuery_agree h ?_ q' q hq' hq⟩
    · exact applyWhere_checked.bind fun _ hw => resolveJoins_checked.bind fun _ hj => Ensures.ok (checked_append hw hj)
    · exact (applyWhere_agree h).bind fun _ _ hw => (resolveJoins_agree h).bind fun _ _ hj =>
        Agree.ok (sameText_append hw hj)

private theorem toUpper_of_not_lower {c : Char} (h : ¬('a'.val ≤ c.val ∧ c.val ≤ 'z'.val)) : c.toUpper = c := dif_neg h

private theorem toUpper_toUpper (c : Char) : c.toUpper.toUpper = c.toUpper := by
  by_cases hc : c.toNat < 128
  · have hall : ∀ n < 128, (Char.ofNat n).toUpper.toUpper = (Char.ofNat n).toUpper := by decide
    have hn := hall c.toNat hc
    rwa [Char.ofNat_toNat] at hn
  · have hid : c.toUpper = c := by
      refine toUpper_of_not_lower fun h => ?_
      have hle : c.toNat ≤ 122 := h.2
      omega
    rw [hid, hid]

/-- A request with a name that is not one. -/
def attack : Env where
  resolve expr := .ok (.str (if expr = "\x7b\x7b query.name \x7d\x7d" then "x'; DROP TABLE users; --" else expr))
  unicode := ⟨Char.toUpper, fun _ _ => rfl, toUpper_toUpper⟩
  truncate := Rat.floor
  typeName _ := "string"

def usersByName : AnyMap :=
  GoMap.ofPairs
    [("table", .str "users"), ("order", .str "age DESC"), ("limit", .num 10),
      ("where", .obj [("nick", .str "\x7b\x7b query.name \x7d\x7d")]),
      ("where_clause", .obj [("query", .str "name = ?"), ("params", .arr [.str "\x7b\x7b query.name \x7d\x7d"])])]

/-- The query is built, with the name as a bound value. -/
theorem queries_safe_attack : ∃ q, Reader.find.build attack usersByName = .ok q ∧ q.Checked attack usersByName ∧
    ∀ resolve q', Alike attack resolve usersByName → Reader.find.build (attack.for resolve) usersByName = .ok q' →
      q'.text = q.text := by
  have hok : (Reader.find.build attack usersByName).toBool = true := by decide +kernel
  cases hq : Reader.find.build attack usersByName with
  | error err =>
    rw [hq] at hok
    cases hok
  | ok q => exact ⟨q, rfl, queries_safe attack usersByName .find hq⟩

end Noda.Db
