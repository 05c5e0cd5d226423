import Noda.Config.Resolved
import Noda.Lib.HashJoin
import Noda.Lib.Strconv

/-!
# Joins of arrays

The match mode of the node `transform.merge` joins two arrays of objects on the text of a field of each.  The right rows
are indexed by that text, one row a key, and of the right rows with a key that no left row has the first one is kept.

`joinLaw_iff`: the joins lose no rows exactly if no two right rows have the same text in the join field.
-/

namespace Noda.Transform

open Noda.Config (AnyMap strField mapField)
open HashJoin (JoinedRow)

/-- `maps.Copy`. -/
def mapsCopy (dst src : AnyMap) : AnyMap := src.toPairs.foldl (fun dst e => dst.insert e.1 e.2) dst

def mergeRows (left right : AnyMap) : AnyMap := mapsCopy (mapsCopy ∅ left) right

def copyRow (row : AnyMap) : AnyMap := mapsCopy ∅ row

section

variable (number : Rat → String)

/-- `fmt.Sprintf("%v", row[field])`. -/
def rowKey (field : String) (row : AnyMap) : String := (row.getD field .null).sprint number

/-- The index of the right side. -/
def rightIndex (rightField : String) (right : List Json) : GoMap AnyMap :=
  right.foldl (fun index r =>
    match r.asMap with
    | none => index
    | some row => index.insert (rowKey number rightField row) row) ∅

/-- The loop of the case `inner`. -/
def matchInner (leftField : String) (index : GoMap AnyMap) (left : List Json) : List AnyMap :=
  left.foldl (fun result l =>
    match l.asMap with
    | none => result
    | some row =>
      match index.lookup (rowKey number leftField row) with
      | some rRow => result ++ [mergeRows row rRow]
      | none => result) []

/-- The loop of the case `enrich`. -/
def matchEnrich (leftField : String) (index : GoMap AnyMap) (left : List Json) : List AnyMap :=
  left.foldl (fun result l =>
    match l.asMap with
    | none => result
    | some row =>
      match index.lookup (rowKey number leftField row) with
      | some rRow => result ++ [mergeRows row rRow]
      | none => result ++ [copyRow row]) []

/-- The first loop of the case `outer` at a left row: the result and the used keys of the right side. -/
def outerLeftStep (leftField : String) (index : GoMap AnyMap) (s : List AnyMap × GoMap Bool) (row : AnyMap) :
    List AnyMap × GoMap Bool :=
  let key := rowKey number leftField row
  match index.lookup key with
  | some rRow => (s.1 ++ [mergeRows row rRow], s.2.insert key true)
  | none => (s.1 ++ [copyRow row], s.2)

/-- The second loop of the case `outer` at a right row. -/
def outerRightStep (rightField : String) (s : List AnyMap × GoMap Bool) (row : AnyMap) : List AnyMap × GoMap Bool :=
  let key := rowKey number rightField row
  if s.2.getD key false then s else (s.1 ++ [copyRow row], s.2.insert key true)

/-- The two loops of the case `outer`. -/
def matchOuter (leftField rightField : String) (index : GoMap AnyMap) (left right : List Json) : List AnyMap :=
  let s := left.foldl (fun s l =>
    match l.asMap with
    | none => s
    | some row => outerLeftStep number leftField index s row) ([], ∅)
  let s := right.foldl (fun s r =>
    match r.asMap with
    | none => s
    | some row => outerRightStep number rightField s row) s
  s.1

def matchMode (inputs : List (List Json)) (matchCfg : Option AnyMap) : Except String (String × List AnyMap) :=
  match inputs, matchCfg with
  | [left, right], some matchCfg =>
    let matchType := (strField matchCfg "type").getD ""
    match mapField matchCfg "fields" with
    | none => .error "transform.merge: match.fields is required"
    | some fields =>
      let leftField := (strField fields "left").getD ""
      let rightField := (strField fields "right").getD ""
      if leftField = "" ∨ rightField = "" then
        .error "transform.merge: match.fields.left and match.fields.right are required"
      else
        let index := rightIndex number rightField right
        if matchType = "inner" then .ok ("success", matchInner number leftField index left)
        else if matchType = "outer" then .ok ("success", matchOuter number leftField rightField index left right)
        else if matchType = "enrich" then .ok ("success", matchEnrich number leftField index left)
        else .error ("transform.merge: unknown match type " ++ matchType.goQuote)
  | [_, _], none => .error "transform.merge: match config is required for match mode"
  | _, _ => .error ("transform.merge: match mode requires exactly 2 inputs, got " ++ toString inputs.length)

end

/-! ### Rows -/

private theorem lookup_mapsCopy (dst src : AnyMap) (k : String) :
    (mapsCopy dst src).lookup k = (src.lookup k).or (dst.lookup k) := by
  have hfold : ∀ (entries : List (String × Json)) (dst : AnyMap), (entries.map Prod.fst).Nodup →
      (entries.foldl (fun dst e => dst.insert e.1 e.2) dst).lookup k = (entries.lookup k).or (dst.lookup k) := by
    intro entries
    induction entries with
    | nil => simp
    | cons e entries ih =>
      intro dst hnodup
      rw [List.map_cons, List.nodup_cons] at hnodup
      rw [List.foldl_cons, ih _ hnodup.2, List.lookup_cons]
      by_cases h : k = e.1
      · have hnone : entries.lookup k = none :=
          Assoc.lookup_eq_none.2 fun v hv => hnodup.1 (h ▸ List.mem_map_of_mem hv)
        rw [hnone, h, AList.lookup_insert, beq_self_eq_true]
        rfl
      · rw [AList.lookup_insert_ne h, beq_false_of_ne h]
  rw [mapsCopy, hfold _ _ src.nodup_toPairs]
  congr 1
  ext v
  rw [Assoc.lookup_eq_some src.nodup_toPairs, AList.mem_toPairs]

@[simp] theorem lookup_mergeRows (left right : AnyMap) (k : String) :
    (mergeRows left right).lookup k = (right.lookup k).or (left.lookup k) := by
  rw [mergeRows, lookup_mapsCopy, lookup_mapsCopy, AList.lookup_empty, Option.or_none]

@[simp] theorem lookup_copyRow (row : AnyMap) (k : String) : (copyRow row).lookup k = row.lookup k := by
  rw [copyRow, lookup_mapsCopy, AList.lookup_empty, Option.or_none]

/-- The rows of an array; other items are passed over. -/
def rows (items : List Json) : List AnyMap := items.filterMap Json.asMap

/-- The row that is made of the rows. -/
def rowOf : JoinedRow AnyMap AnyMap → AnyMap
  | .both l r => mergeRows l r
  | .left l => copyRow l
  | .right r => copyRow r

/-! ### The loops -/

variable {number : Rat → String} {leftField rightField : String} {left right : List Json}

/-- A loop that passes over what is no row. -/
private theorem foldl_rows {σ : Type} (f : σ → AnyMap → σ) (items : List Json) (s : σ) :
    items.foldl (fun s v =>
      match v.asMap with
      | none => s
      | some row => f s row) s = (rows items).foldl f s := by
  rw [rows, List.foldl_filterMap]
  congr 1
  funext s v
  cases v.asMap with
  | none => rfl
  | some row => rfl

private theorem lookup_rightIndex (k : String) :
    (rightIndex number rightField right).lookup k = HashJoin.partner (rowKey number rightField) (rows right) k := by
  rw [← HashJoin.lookup_index]
  congr 1
  exact foldl_rows (fun (index : GoMap AnyMap) row => index.insert (rowKey number rightField row) row) right ∅

/-- A loop that adds rows to the result. -/
private theorem foldl_eq_append {α β : Type} {step : List β → α → List β} (f : α → List β) (xs : List α) (acc : List β)
    (h : ∀ acc x, step acc x = acc ++ f x) : xs.foldl step acc = acc ++ xs.flatMap f := by
  induction xs generalizing acc with
  | nil => simp
  | cons x xs ih => rw [List.foldl_cons, h, ih, List.flatMap_cons, List.append_assoc]

private theorem matchInner_eq :
    matchInner number leftField (rightIndex number rightField right) left =
      (HashJoin.inner (rowKey number leftField) (rowKey number rightField) (rows left) (rows right)).map rowOf := by
  rw [HashJoin.inner, List.map_filterMap, List.filterMap_eq_flatMap_toList]
  refine (foldl_rows _ left []).trans (foldl_eq_append _ _ _ ?_)
  intro result row
  rw [lookup_rightIndex]
  cases HashJoin.partner (rowKey number rightField) (rows right) (rowKey number leftField row) with
  | none => simp
  | some rRow => rfl

private theorem matchEnrich_eq :
    matchEnrich number leftField (rightIndex number rightField right) left =
      (HashJoin.enrich (rowKey number leftField) (rowKey number rightField) (rows left) (rows right)).map rowOf := by
  rw [HashJoin.enrich, List.map_map, List.map_eq_flatMap]
  refine (foldl_rows _ left []).trans (foldl_eq_append _ _ _ ?_)
  intro result row
  rw [lookup_rightIndex, Function.comp_apply, HashJoin.enrichRow]
  cases HashJoin.partner (rowKey number rightField) (rows right) (rowKey number leftField row) with
  | none => rfl
  | some rRow => rfl

/-- The first loop of the outer join adds the rows of the enrichment to the result. -/
private theorem foldl_outerLeftStep_fst (lefts : List AnyMap) (s : List AnyMap × GoMap Bool) :
    (lefts.foldl (outerLeftStep number leftField (rightIndex number rightField right)) s).1 =
      s.1 ++ (HashJoin.enrich (rowKey number leftField) (rowKey number rightField) lefts (rows right)).map rowOf := by
  induction lefts generalizing s with
  | nil => simp [HashJoin.enrich]
  | cons row lefts ih =>
    rw [List.foldl_cons, ih, HashJoin.enrich, HashJoin.enrich, List.map_cons, List.map_cons, outerLeftStep,
      lookup_rightIndex, HashJoin.enrichRow]
    cases HashJoin.partner (rowKey number rightField) (rows right) (rowKey number leftField row) with
    | none => simp [rowOf]
    | some rRow => simp [rowOf]

/-- The first loop of the outer join marks the keys of the right rows that a left row has. -/
private theorem getD_foldl_outerLeftStep (lefts : List AnyMap) (s : List AnyMap × GoMap Bool) {r : AnyMap}
    (hr : r ∈ rows right) :
    (lefts.foldl (outerLeftStep number leftField (rightIndex number rightField right)) s).2.getD
        (rowKey number rightField r) false =
      (s.2.getD (rowKey number rightField r) false ||
        HashJoin.matched (rowKey number leftField) lefts (rowKey number rightField r)) := by
  induction lefts generalizing s with
  | nil => simp [HashJoin.matched]
  | cons row lefts ih =>
    rw [List.foldl_cons, ih, HashJoin.matched, HashJoin.matched, List.any_cons, ← Bool.or_assoc]
    congr 1
    rw [outerLeftStep, lookup_rightIndex]
    cases hp : HashJoin.partner (rowKey number rightField) (rows right) (rowKey number leftField row) with
    | none =>
      have hne := HashJoin.partner_eq_none.1 hp r hr
      simp [Ne.symm hne]
    | some rRow =>
      by_cases hkey : rowKey number leftField row = rowKey number rightField r
      · simp [hkey]
      · simp [hkey, AList.getD_insert_of_ne _ _ _ (Ne.symm hkey)]

private theorem foldl_outerRightStep (rights : List AnyMap) (s : List AnyMap × GoMap Bool) :
    (rights.foldl (outerRightStep number rightField) s).1 =
      s.1 ++ (HashJoin.firsts (rowKey number rightField) (fun k => s.2.getD k false) rights).map copyRow := by
  induction rights generalizing s with
  | nil => simp [HashJoin.firsts]
  | cons row rights ih =>
    rw [List.foldl_cons, ih, HashJoin.firsts, outerRightStep]
    split_ifs with hused
    · rfl
    · have hother : (fun k => (s.2.insert (rowKey number rightField row) true).getD k false) =
          fun k => s.2.getD k false || k = rowKey number rightField row := by
        funext k
        by_cases hkey : k = rowKey number rightField row
        · simp [hkey]
        · simp [hkey, AList.getD_insert_of_ne _ _ _ hkey]
      simp [hother]

private theorem matchOuter_eq :
    matchOuter number leftField rightField (rightIndex number rightField right) left right =
      (HashJoin.outer (rowKey number leftField) (rowKey number rightField) (rows left) (rows right)).map rowOf := by
  rw [matchOuter, foldl_rows, foldl_rows, foldl_outerRightStep, foldl_outerLeftStep_fst, HashJoin.outer,
    List.map_append, List.map_map]
  congr 1
  refine congrArg (List.map copyRow) (HashJoin.firsts_congr fun r hr => ?_)
  rw [getD_foldl_outerLeftStep _ _ hr, AList.getD_empty, Bool.false_or]

/-! ### Where the rows of the result come from -/

inductive MatchType where
  | inner
  | outer
  | enrich
deriving DecidableEq

def MatchType.name : MatchType → String
  | .inner => "inner"
  | .outer => "outer"
  | .enrich => "enrich"

def joinRows {L R : Type} (lk : L → String) (rk : R → String) (lefts : List L) (rights : List R) :
    MatchType → List (JoinedRow L R)
  | .inner => HashJoin.inner lk rk lefts rights
  | .outer => HashJoin.outer lk rk lefts rights
  | .enrich => HashJoin.enrich lk rk lefts rights

/-- The match config asks for the join type and the fields. -/
structure Asks (matchCfg : AnyMap) (type : MatchType) (leftField rightField : String) : Prop where
  type_eq : strField matchCfg "type" = some type.name
  fields_eq : ∃ fields, mapField matchCfg "fields" = some fields ∧ strField fields "left" = some leftField ∧
    strField fields "right" = some rightField
  left_ne : leftField ≠ ""
  right_ne : rightField ≠ ""

private theorem matchMode_eq {matchCfg : AnyMap} {type : MatchType} (h : Asks matchCfg type leftField rightField) :
    matchMode number [left, right] (some matchCfg) =
      .ok ("success",
        (joinRows (rowKey number leftField) (rowKey number rightField) (rows left) (rows right) type).map rowOf) := by
  obtain ⟨htype, ⟨fields, hfields, hleft, hright⟩, hl, hr⟩ := h
  simp only [matchMode, htype, hfields, hleft, hright, Option.getD_some, hl, hr, or_self, if_false]
  cases type with
  | inner => simp [MatchType.name, matchInner_eq, joinRows]
  | outer => simp [MatchType.name, matchOuter_eq, joinRows]
  | enrich => simp [MatchType.name, matchEnrich_eq, joinRows]

section

variable (number leftField rightField left right)

def numberedKey (field : String) (row : AnyMap × ℕ) : String := rowKey number field row.1

/-- The rows of the result, each with the numbers of the rows that it is made of. -/
def trace (type : MatchType) : List (JoinedRow ℕ ℕ × AnyMap) :=
  (joinRows (numberedKey number leftField) (numberedKey number rightField) (rows left).zipIdx (rows right).zipIdx
    type).map fun j => (j.map Prod.snd Prod.snd, rowOf (j.map Prod.fst Prod.fst))

/-- The row is the numbered row itself, or has the fields of both rows, of which the right row's fields override the
left row's. -/
def MadeOf : JoinedRow ℕ ℕ → AnyMap → Prop
  | .both i j, row => ∃ l r, (rows left)[i]? = some l ∧ (rows right)[j]? = some r ∧
    rowKey number leftField l = rowKey number rightField r ∧ ∀ k, row.lookup k = (r.lookup k).or (l.lookup k)
  | .left i, row => ∃ l, (rows left)[i]? = some l ∧ ∀ k, row.lookup k = l.lookup k
  | .right j, row => ∃ r, (rows right)[j]? = some r ∧ ∀ k, row.lookup k = r.lookup k

/-- The numbers of the rows with the property. -/
def numbers (P : AnyMap → Bool) (rows : List AnyMap) : List ℕ := (rows.zipIdx.filter fun e => P e.1).map Prod.snd

/-- The joins lose no rows. -/
structure JoinLaw : Prop where
  made : ∀ type, ∀ e ∈ trace number leftField rightField left right type,
    MadeOf number leftField rightField left right e.1 e.2
  outer_left : ∀ i < (rows left).length, ∃ e ∈ trace number leftField rightField left right .outer, e.1.left? = some i
  outer_right : ∀ j < (rows right).length, ∃ e ∈ trace number leftField rightField left right .outer,
    e.1.right? = some j
  enrich : (trace number leftField rightField left right .enrich).map (fun e => e.1.left?) =
    (List.range (rows left).length).map some
  inner : (trace number leftField rightField left right .inner).map (fun e => e.1.left?) =
    (numbers (fun l => (rows right).any fun r => rowKey number leftField l = rowKey number rightField r)
      (rows left)).map some
  inner_merged : ∀ e ∈ trace number leftField rightField left right .inner, ∃ i j, e.1 = .both i j
  outer : ∃ rest, trace number leftField rightField left right .outer =
      trace number leftField rightField left right .enrich ++ rest ∧
    rest.map Prod.fst =
      (numbers (fun r => !(rows left).any fun l => rowKey number leftField l = rowKey number rightField r)
        (rows right)).map .right

end

private theorem joinRows_map {L R L' R' : Type} (lk : L → String) (rk : R → String) (f : L' → L) (g : R' → R)
    (lefts : List L')
    (rights : List R') (type : MatchType) :
    joinRows lk rk (lefts.map f) (rights.map g) type =
      (joinRows (lk ∘ f) (rk ∘ g) lefts rights type).map (JoinedRow.map f g) := by
  cases type with
  | inner => exact HashJoin.map_inner f g lefts rights
  | outer => exact HashJoin.map_outer f g lefts rights
  | enrich => exact HashJoin.map_enrich f g lefts rights

private theorem map_snd_trace (type : MatchType) :
    (trace number leftField rightField left right type).map Prod.snd =
      (joinRows (rowKey number leftField) (rowKey number rightField) (rows left) (rows right) type).map rowOf := by
  have hmap := joinRows_map (rowKey number leftField) (rowKey number rightField) Prod.fst Prod.fst (rows left).zipIdx
    (rows right).zipIdx type
  rw [List.zipIdx_map_fst, List.zipIdx_map_fst] at hmap
  rw [hmap, trace, List.map_map, List.map_map]
  rfl

private theorem madeOf_of_mem_trace {type : MatchType} {e : JoinedRow ℕ ℕ × AnyMap}
    (h : e ∈ trace number leftField rightField left right type) :
    MadeOf number leftField rightField left right e.1 e.2 := by
  obtain ⟨j, hj, rfl⟩ := List.mem_map.1 h
  have hmade : HashJoin.MadeOf (numberedKey number leftField) (numberedKey number rightField) (rows left).zipIdx
      (rows right).zipIdx j := by
    cases type with
    | inner => exact HashJoin.madeOf_of_mem_inner hj
    | outer => exact HashJoin.madeOf_of_mem_outer hj
    | enrich => exact HashJoin.madeOf_of_mem_outer (List.mem_append_left _ hj)
  cases j with
  | both l r =>
    obtain ⟨hl, hr, hkey⟩ := hmade
    exact ⟨l.1, r.1, List.mem_zipIdx_iff_getElem?.1 hl, List.mem_zipIdx_iff_getElem?.1 hr, hkey, lookup_mergeRows _ _⟩
  | left l => exact ⟨l.1, List.mem_zipIdx_iff_getElem?.1 hmade, lookup_copyRow _⟩
  | right r => exact ⟨r.1, List.mem_zipIdx_iff_getElem?.1 hmade, lookup_copyRow _⟩

private theorem nodup_zipIdx (rows : List AnyMap) : rows.zipIdx.Nodup := by
  refine List.Nodup.of_map Prod.snd ?_
  rw [List.zipIdx_map_snd]
  exact List.nodup_range'

private theorem any_zipIdx (P : AnyMap → Bool) (rows : List AnyMap) :
    (rows.zipIdx.any fun e => P e.1) = rows.any P := by
  conv_rhs => rw [← List.zipIdx_map_fst 0 rows, List.any_map]
  rfl

private theorem map_left?_trace (type : MatchType) :
    (trace number leftField rightField left right type).map (fun e => e.1.left?) =
      ((joinRows (numberedKey number leftField) (numberedKey number rightField) (rows left).zipIdx (rows right).zipIdx
        type).map JoinedRow.left?).map (Option.map Prod.snd) := by
  rw [trace, List.map_map, List.map_map]
  exact List.map_congr_left fun j _ => JoinedRow.left?_map ..

private theorem map_left?_trace_enrich :
    (trace number leftField rightField left right .enrich).map (fun e => e.1.left?) =
      (List.range (rows left).length).map some := by
  have hnumbers := List.zipIdx_map_snd 0 (rows left)
  rw [map_left?_trace, joinRows, HashJoin.map_left?_enrich, List.map_map, List.range_eq_range', ← hnumbers,
    List.map_map]
  rfl

private theorem map_left?_trace_inner :
    (trace number leftField rightField left right .inner).map (fun e => e.1.left?) =
      (numbers (fun l => (rows right).any fun r => rowKey number leftField l = rowKey number rightField r)
        (rows left)).map some := by
  have hpartner : ∀ l : AnyMap × ℕ, (HashJoin.partner (numberedKey number rightField) (rows right).zipIdx
      (numberedKey number leftField l)).isSome =
        (rows right).any fun r => rowKey number leftField l.1 = rowKey number rightField r := by
    intro l
    rw [HashJoin.isSome_partner]
    exact any_zipIdx (fun r => rowKey number leftField l.1 = rowKey number rightField r) (rows right)
  rw [map_left?_trace, joinRows, HashJoin.map_left?_inner, numbers, List.map_map, List.map_map]
  simp only [hpartner]
  rfl

private theorem both_of_mem_trace_inner {e : JoinedRow ℕ ℕ × AnyMap}
    (h : e ∈ trace number leftField rightField left right .inner) : ∃ i j, e.1 = .both i j := by
  obtain ⟨o, ho, rfl⟩ := List.mem_map.1 h
  obtain ⟨l, -, hl⟩ := List.mem_filterMap.1 ho
  obtain ⟨r, -, rfl⟩ := Option.map_eq_some_iff.1 hl
  exact ⟨l.2, r.2, rfl⟩

private theorem exists_left_trace_outer (i : ℕ) (h : i < (rows left).length) :
    ∃ e ∈ trace number leftField rightField left right .outer, e.1.left? = some i := by
  have hmem : ((rows left)[i], i) ∈ (rows left).zipIdx :=
    List.mem_zipIdx_iff_getElem?.2 (List.getElem?_eq_getElem h)
  obtain ⟨o, ho, hoi⟩ := HashJoin.exists_left_outer (numberedKey number leftField) (numberedKey number rightField)
    (rows right).zipIdx hmem
  exact ⟨_, List.mem_map_of_mem ho, by rw [JoinedRow.left?_map, hoi]; rfl⟩

private theorem map_numberedKey (field : String) (rows : List AnyMap) :
    rows.zipIdx.map (numberedKey number field) = rows.map (rowKey number field) := by
  conv_rhs => rw [← List.zipIdx_map_fst 0 rows, List.map_map]
  rfl

/-- Every right row has a part in the outer join exactly if no two right rows have the same key. -/
private theorem forall_right_trace_outer_iff :
    (∀ j < (rows right).length, ∃ e ∈ trace number leftField rightField left right .outer, e.1.right? = some j) ↔
      ((rows right).map (rowKey number rightField)).Nodup := by
  rw [← map_numberedKey,
    ← HashJoin.forall_right_outer_iff (numberedKey number leftField) (numberedKey number rightField)
    (rows left).zipIdx (nodup_zipIdx _)]
  constructor
  · rintro h ⟨row, j⟩ hr
    have hrow := List.mem_zipIdx_iff_getElem?.1 hr
    obtain ⟨e, he, hej⟩ := h j (List.getElem?_eq_some_iff.1 hrow).1
    obtain ⟨o, ho, rfl⟩ := List.mem_map.1 he
    rw [JoinedRow.right?_map] at hej
    obtain ⟨⟨row', j'⟩, ho', hj'⟩ := Option.map_eq_some_iff.1 hej
    obtain rfl : j' = j := hj'
    have hmem := HashJoin.mem_right_of_madeOf (HashJoin.madeOf_of_mem_outer ho) ho'
    have hrow' : (rows right)[j']? = some row' := List.mem_zipIdx_iff_getElem?.1 hmem
    rw [hrow] at hrow'
    obtain rfl := Option.some.inj hrow'
    exact ⟨o, ho, ho'⟩
  · intro h j hj
    obtain ⟨o, ho, hoj⟩ := h ((rows right)[j], j) (List.mem_zipIdx_iff_getElem?.2 (List.getElem?_eq_getElem hj))
    exact ⟨_, List.mem_map_of_mem ho, by rw [JoinedRow.right?_map, hoj]; rfl⟩

/-- Without repeated keys on the right side the outer join is the enrichment and the right rows that no left row
matches. -/
private theorem trace_outer (h : ((rows right).map (rowKey number rightField)).Nodup) :
    ∃ rest, trace number leftField rightField left right .outer =
        trace number leftField rightField left right .enrich ++ rest ∧
      rest.map Prod.fst =
        (numbers (fun r => !(rows left).any fun l => rowKey number leftField l = rowKey number rightField r)
          (rows right)).map .right := by
  rw [← map_numberedKey] at h
  refine ⟨_, by rw [trace, joinRows, HashJoin.outer, List.map_append]; rfl, ?_⟩
  have hmatched : ∀ r : AnyMap × ℕ,
      HashJoin.matched (numberedKey number leftField) (rows left).zipIdx (numberedKey number rightField r) =
        (rows left).any fun l => rowKey number leftField l = rowKey number rightField r.1 := fun r =>
    any_zipIdx (fun l => rowKey number leftField l = rowKey number rightField r.1) (rows left)
  rw [HashJoin.firsts_of_nodup h, numbers, List.map_map, List.map_map, List.map_map]
  simp only [hmatched]
  rfl

/-- Every result row is made of the rows that it is traced to, and no row is lost exactly if no two rows of the right
side have the same text in the join field. -/
theorem joinLaw_iff (number : Rat → String) (left right : List Json) (leftField rightField : String) :
    (∀ type matchCfg, Asks matchCfg type leftField rightField →
      matchMode number [left, right] (some matchCfg) =
        .ok ("success", (trace number leftField rightField left right type).map Prod.snd)) ∧
    (JoinLaw number leftField rightField left right ↔ ((rows right).map (rowKey number rightField)).Nodup) := by
  refine ⟨fun type matchCfg h => by rw [matchMode_eq h, map_snd_trace], ?_, fun h => ?_⟩
  · intro h
    exact forall_right_trace_outer_iff.1 h.outer_right
  · exact {
      made := fun type e he => madeOf_of_mem_trace he
      outer_left := exists_left_trace_outer
      outer_right := forall_right_trace_outer_iff.2 h
      enrich := map_left?_trace_enrich
      inner := map_left?_trace_inner
      inner_merged := fun e he => both_of_mem_trace_inner he
      outer := trace_outer h }

/-- Two right rows with the same id. -/
def sharedId : List Json :=
  [.obj [("id", .str "1"), ("a", .str "x")], .obj [("id", .str "1"), ("b", .str "y")]]

/-- The outer join on the ids. -/
def outerOnId : AnyMap :=
  .ofPairs [("type", .str "outer"), ("fields", .obj [("left", .str "id"), ("right", .str "id")])]

/-- The second right row is lost: no row of the outer join has its field `b`. -/
theorem outer_loses_row :
    (∃ result, matchMode toString [[], sharedId] (some outerOnId) = .ok ("success", result) ∧
      ∀ row ∈ result, row.lookup "b" = none) ∧
    ¬ JoinLaw toString "id" "id" [] sharedId := by
  constructor
  · exact ⟨[copyRow (.ofPairs [("id", .str "1"), ("a", .str "x")])], by rfl, by decide +kernel⟩
  · intro h
    have hnodup := forall_right_trace_outer_iff.1 h.outer_right
    exact absurd hnodup (by decide +kernel)

end Noda.Transform
