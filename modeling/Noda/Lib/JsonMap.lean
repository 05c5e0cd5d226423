import Mathlib.Data.List.Forall2
import Mathlib.Data.List.Perm.Subperm
import Mathlib.Data.Option.Basic
import Noda.Lib.Assoc
import Noda.Lib.Json

/-!
# Objects without repeated keys

A Go map of JSON values has no key twice, at any depth (`JsonMap`).  The value at a path of keys goes through objects
only (`Json.get`).
-/

namespace Json

/-- The fields of an object. -/
abbrev Fields := List (String × Json)

mutual

/-- No object in the value has a key twice. -/
def distinct : Json → Bool
  | .arr items => distinctItems items
  | .obj fields => decide (fields.map Prod.fst).Nodup && distinctFields fields
  | _ => true

def distinctItems : List Json → Bool
  | [] => true
  | v :: items => distinct v && distinctItems items

def distinctFields : Fields → Bool
  | [] => true
  | (_, v) :: fields => distinct v && distinctFields fields

end

private theorem distinctFields_iff {fields : Fields} :
    distinctFields fields = true ↔ ∀ e ∈ fields, e.2.distinct = true := by
  induction fields with
  | nil => simp [distinctFields]
  | cons e fields ih => simp [distinctFields, ih]

theorem distinct_obj {fields : Fields} :
    (Json.obj fields).distinct = true ↔ (fields.map Prod.fst).Nodup ∧ ∀ e ∈ fields, e.2.distinct = true := by
  rw [distinct, Bool.and_eq_true, decide_eq_true_eq, distinctFields_iff]

/-- The value at a path of keys. -/
def get : List String → Json → Option Json
  | [], v => some v
  | key :: path, .obj fields =>
    match fields.lookup key with
    | some v => get path v
    | none => none
  | _ :: _, _ => none

@[simp] theorem get_nil (v : Json) : get [] v = some v := by
  cases v <;> rfl

theorem get_cons_obj (key : String) (path : List String) (fields : Fields) :
    get (key :: path) (.obj fields) = (fields.lookup key).bind (get path) := by
  rw [get]
  cases fields.lookup key with
  | none => rfl
  | some v => rfl

theorem get_obj_eq_some {key : String} {path : List String} {fields : Fields} {w : Json} :
    get (key :: path) (.obj fields) = some w ↔ ∃ u, fields.lookup key = some u ∧ get path u = some w := by
  rw [get_cons_obj, Option.bind_eq_some_iff]

theorem get_cons_eq_some {key : String} {path : List String} {v w : Json} :
    get (key :: path) v = some w ↔
      ∃ fields u, v = .obj fields ∧ fields.lookup key = some u ∧ get path u = some w := by
  cases v with
  | obj fields => simp [get_obj_eq_some]
  | _ => simp [get]

/-- The path leaves the value at an object that does not have its next key. -/
def leaves : List String → Json → Bool
  | key :: path, .obj fields =>
    match fields.lookup key with
    | some v => leaves path v
    | none => true
  | _, _ => false

theorem leaves_cons {key : String} {path : List String} {v : Json} :
    leaves (key :: path) v = true ↔
      ∃ fields, v = .obj fields ∧ ∀ u, fields.lookup key = some u → leaves path u = true := by
  cases v with
  | obj fields =>
    rw [leaves]
    cases h : fields.lookup key with
    | none => simp [h]
    | some u => simp [h]
  | _ => simp [leaves]

theorem get_of_leaves {path : List String} {v : Json} (h : leaves path v = true) : get path v = none := by
  induction path generalizing v with
  | nil => cases v <;> cases h
  | cons key path ih =>
    obtain ⟨fields, rfl, hrest⟩ := leaves_cons.1 h
    rw [get_cons_obj]
    cases hkey : fields.lookup key with
    | none => rfl
    | some u => exact ih (hrest u hkey)

/-- What holds of the fields of an object if it holds of the objects among its values holds of all fields. -/
theorem fields_induction {P : Fields → Prop}
    (h : ∀ fields, (∀ key inner, (key, .obj inner) ∈ fields → P inner) → P fields) (fields : Fields) : P fields := by
  refine h fields fun key inner hmem => ?_
  have hlt : sizeOf inner < sizeOf fields := by
    have hmem := List.sizeOf_lt_of_mem hmem
    simp only [Prod.mk.sizeOf_spec, obj.sizeOf_spec] at hmem
    omega
  exact fields_induction h inner
termination_by sizeOf fields

/-! ### Equal values -/

mutual

/-- `reflect.DeepEqual`. -/
def deepEqual : Json → Json → Bool
  | .null, .null => true
  | .bool a, .bool b => a = b
  | .num a, .num b => a = b
  | .str a, .str b => a = b
  | .arr a, .arr b => deepEqualItems a b
  | .obj a, .obj b => a.length = b.length && deepEqualFields a b
  | _, _ => false

def deepEqualItems : List Json → List Json → Bool
  | [], [] => true
  | v :: a, w :: b => deepEqual v w && deepEqualItems a b
  | _, _ => false

/-- Each field of the first map is in the second one. -/
def deepEqualFields : Fields → Fields → Bool
  | [], _ => true
  | (k, v) :: a, b =>
    (match b.lookup k with
      | some w => deepEqual v w
      | none => false) && deepEqualFields a b

end

/-- The values are equal but for the order of fields. -/
inductive Same : Json → Json → Prop where
  | null : Same .null .null
  | bool (b) : Same (.bool b) (.bool b)
  | num (n) : Same (.num n) (.num n)
  | str (s) : Same (.str s) (.str s)
  | arr {a b} : List.Forall₂ Same a b → Same (.arr a) (.arr b)
  | obj {a b} : (∀ key, Option.Rel Same (a.lookup key) (b.lookup key)) → Same (.obj a) (.obj b)

theorem lookup_ne_none {fields : Fields} {key : String} : fields.lookup key ≠ none ↔ key ∈ fields.map Prod.fst := by
  rw [ne_eq, Assoc.lookup_eq_none]
  push Not
  constructor
  · rintro ⟨v, hv⟩
    exact List.mem_map.2 ⟨(key, v), hv, rfl⟩
  · intro h
    obtain ⟨⟨k, v⟩, hv, rfl⟩ := List.mem_map.1 h
    exact ⟨v, hv⟩

/-- Two maps of the same size, one with all keys of the other, have the same keys. -/
private theorem keys_perm {a b : Fields} (ha : (a.map Prod.fst).Nodup) (hlen : a.length = b.length)
    (hsub : ∀ key ∈ a.map Prod.fst, key ∈ b.map Prod.fst) : (a.map Prod.fst).Perm (b.map Prod.fst) := by
  refine (List.subperm_of_subset ha hsub).perm_of_length_le ?_
  rw [List.length_map, List.length_map, hlen]

theorem distinctItems_iff {items : List Json} : distinctItems items = true ↔ ∀ v ∈ items, v.distinct = true := by
  induction items with
  | nil => simp [distinctItems]
  | cons v items ih => simp [distinctItems, ih]

/-- The fields of two maps are equal if the values of each key are. -/
private theorem same_obj_iff {a b : Fields} (ha : (a.map Prod.fst).Nodup) (hb : (b.map Prod.fst).Nodup) :
    Same (.obj a) (.obj b) ↔ a.length = b.length ∧ ∀ e ∈ a, ∃ w, b.lookup e.1 = some w ∧ Same e.2 w := by
  constructor
  · intro hsame
    have h : ∀ key, Option.Rel Same (a.lookup key) (b.lookup key) := by
      cases hsame with
      | obj h => exact h
    have hrel : ∀ e ∈ a, ∃ w, b.lookup e.1 = some w ∧ Same e.2 w := by
      intro e he
      have hkey := h e.1
      rw [(Assoc.lookup_eq_some ha).2 he] at hkey
      cases hw : b.lookup e.1 with
      | none => rw [hw] at hkey; cases hkey
      | some w =>
        rw [hw] at hkey
        cases hkey with
        | some hsame => exact ⟨w, rfl, hsame⟩
    have hkeys : ∀ key, key ∈ a.map Prod.fst ↔ key ∈ b.map Prod.fst := by
      intro key
      rw [← lookup_ne_none, ← lookup_ne_none]
      have hkey := h key
      cases ha : a.lookup key with
      | none =>
        rw [ha] at hkey
        cases hb : b.lookup key with
        | none => rfl
        | some w => rw [hb] at hkey; cases hkey
      | some v =>
        rw [ha] at hkey
        cases hb : b.lookup key with
        | none => rw [hb] at hkey; cases hkey
        | some w => simp
    have hperm := (List.perm_ext_iff_of_nodup ha hb).2 hkeys
    have hlen := hperm.length_eq
    rw [List.length_map, List.length_map] at hlen
    exact ⟨hlen, hrel⟩
  · rintro ⟨hlen, hrel⟩
    have hsub : ∀ key ∈ a.map Prod.fst, key ∈ b.map Prod.fst := by
      intro key hkey
      obtain ⟨e, he, rfl⟩ := List.mem_map.1 hkey
      obtain ⟨w, hw, -⟩ := hrel e he
      exact List.mem_map.2 ⟨(e.1, w), Assoc.mem_of_lookup hw, rfl⟩
    have hperm := keys_perm ha hlen hsub
    refine .obj fun key => ?_
    cases hv : a.lookup key with
    | some v =>
      obtain ⟨w, hw, hsame⟩ := hrel (key, v) (Assoc.mem_of_lookup hv)
      rw [show b.lookup key = some w from hw]
      exact .some hsame
    | none =>
      cases hw : b.lookup key with
      | none => exact .none
      | some w =>
        have hkey := hperm.mem_iff.2 (lookup_ne_none.1 (by rw [hw]; exact Option.some_ne_none w))
        exact absurd hv (lookup_ne_none.2 hkey)

mutual

theorem deepEqual_iff : ∀ {v w : Json}, v.distinct = true → w.distinct = true → (deepEqual v w = true ↔ Same v w)
  | .null, w, _, _ => by
    cases w with
    | null => exact iff_of_true rfl .null
    | _ => exact iff_of_false (by simp [deepEqual]) (by rintro ⟨⟩)
  | .bool a, w, _, _ => by
    cases w with
    | bool b =>
      rw [deepEqual, decide_eq_true_eq]
      exact ⟨fun h => h ▸ .bool a, by rintro ⟨⟩; rfl⟩
    | _ => exact iff_of_false (by simp [deepEqual]) (by rintro ⟨⟩)
  | .num a, w, _, _ => by
    cases w with
    | num b =>
      rw [deepEqual, decide_eq_true_eq]
      exact ⟨fun h => h ▸ .num a, by rintro ⟨⟩; rfl⟩
    | _ => exact iff_of_false (by simp [deepEqual]) (by rintro ⟨⟩)
  | .str a, w, _, _ => by
    cases w with
    | str b =>
      rw [deepEqual, decide_eq_true_eq]
      exact ⟨fun h => h ▸ .str a, by rintro ⟨⟩; rfl⟩
    | _ => exact iff_of_false (by simp [deepEqual]) (by rintro ⟨⟩)
  | .arr a, w, hv, hw => by
    cases w with
    | arr b =>
      rw [distinct] at hv hw
      rw [deepEqual, deepEqualItems_iff (distinctItems_iff.1 hv) (distinctItems_iff.1 hw)]
      exact ⟨.arr, by rintro ⟨⟩; assumption⟩
    | _ => exact iff_of_false (by simp [deepEqual]) (by rintro ⟨⟩)
  | .obj a, w, hv, hw => by
    cases w with
    | obj b =>
      obtain ⟨ha, hva⟩ := distinct_obj.1 hv
      obtain ⟨hb, hwb⟩ := distinct_obj.1 hw
      rw [deepEqual, Bool.and_eq_true, decide_eq_true_eq, same_obj_iff ha hb, deepEqualFields_iff_same hva hwb]
    | _ => exact iff_of_false (by simp [deepEqual]) (by rintro ⟨⟩)

theorem deepEqualItems_iff : ∀ {a b : List Json}, (∀ v ∈ a, v.distinct = true) → (∀ w ∈ b, w.distinct = true) →
    (deepEqualItems a b = true ↔ List.Forall₂ Same a b)
  | [], [], _, _ => by simp [deepEqualItems]
  | [], _ :: _, _, _ => by simp [deepEqualItems]
  | _ :: _, [], _, _ => by simp [deepEqualItems]
  | v :: a, w :: b, ha, hb => by
    obtain ⟨hv, ha⟩ := List.forall_mem_cons.1 ha
    obtain ⟨hw, hb⟩ := List.forall_mem_cons.1 hb
    rw [deepEqualItems, Bool.and_eq_true, deepEqual_iff hv hw, deepEqualItems_iff ha hb, List.forall₂_cons]

theorem deepEqualFields_iff_same : ∀ {a b : Fields}, (∀ e ∈ a, e.2.distinct = true) → (∀ e ∈ b, e.2.distinct = true) →
    (deepEqualFields a b = true ↔ ∀ e ∈ a, ∃ w, b.lookup e.1 = some w ∧ Same e.2 w)
  | [], _, _, _ => by simp [deepEqualFields]
  | (k, v) :: a, b, ha, hb => by
    obtain ⟨hv, ha⟩ := List.forall_mem_cons.1 ha
    rw [deepEqualFields, Bool.and_eq_true, deepEqualFields_iff_same ha hb, List.forall_mem_cons]
    cases hlookup : b.lookup k with
    | none => simp
    | some w =>
      have hw := hb (k, w) (Assoc.mem_of_lookup hlookup)
      simp [deepEqual_iff hv hw]

end

end Json

/-- `map[string]any`, with maps without repeated keys at every depth. -/
@[ext]
structure JsonMap where
  fields : Json.Fields
  distinct : (Json.obj fields).distinct = true

namespace JsonMap

/-- The value at a path of keys. -/
def get (m : JsonMap) (path : List String) : Option Json := Json.get path (.obj m.fields)

end JsonMap
