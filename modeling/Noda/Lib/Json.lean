import Mathlib.Data.Rat.Defs
import Noda.Lib.GoMap

/-!
# JSON values and objects

JSON values (`Json`) with decidable equality: the fields of an object are listed in the order in which they are
enumerated, so that two values are equal exactly when they are printed alike.

The type assertions of Go on a value (`asMap`, `asArr`, `asStr`) yield maps without repeated keys, and `%v` prints the
keys of a map in order (`sprint`).

An object of a script is its list of fields.  Setting a field that is there keeps its place; a new field comes last, but
for the array indices, which are enumerated first and in their own order (`JsObject.set`).  An object that is filled
with the fields of an object in its order has them in the same order (`JsObject.fill_of_enumerated`).
-/

inductive Json where
  | null
  | bool (b : Bool)
  | num (n : Rat)
  | str (s : String)
  | arr (items : List Json)
  | obj (fields : List (String × Json))

namespace Json

mutual

def decEq : ∀ a b : Json, Decidable (a = b)
  | .null, .null => .isTrue rfl
  | .bool a, .bool b => decidable_of_iff (a = b) ⟨congrArg _, Json.bool.inj⟩
  | .num a, .num b => decidable_of_iff (a = b) ⟨congrArg _, Json.num.inj⟩
  | .str a, .str b => decidable_of_iff (a = b) ⟨congrArg _, Json.str.inj⟩
  | .arr a, .arr b =>
    have := decEqItems a b
    decidable_of_iff (a = b) ⟨congrArg _, Json.arr.inj⟩
  | .obj a, .obj b =>
    have := decEqFields a b
    decidable_of_iff (a = b) ⟨congrArg _, Json.obj.inj⟩
  | .null, .bool _ | .null, .num _ | .null, .str _ | .null, .arr _ | .null, .obj _
  | .bool _, .null | .bool _, .num _ | .bool _, .str _ | .bool _, .arr _ | .bool _, .obj _
  | .num _, .null | .num _, .bool _ | .num _, .str _ | .num _, .arr _ | .num _, .obj _
  | .str _, .null | .str _, .bool _ | .str _, .num _ | .str _, .arr _ | .str _, .obj _
  | .arr _, .null | .arr _, .bool _ | .arr _, .num _ | .arr _, .str _ | .arr _, .obj _
  | .obj _, .null | .obj _, .bool _ | .obj _, .num _ | .obj _, .str _ | .obj _, .arr _ =>
    .isFalse fun h => nomatch h

def decEqItems : ∀ a b : List Json, Decidable (a = b)
  | [], [] => .isTrue rfl
  | x :: xs, y :: ys =>
    have := decEq x y
    have := decEqItems xs ys
    decidable_of_iff (x = y ∧ xs = ys) (by rw [List.cons.injEq])
  | [], _ :: _ | _ :: _, [] => .isFalse fun h => nomatch h

def decEqFields : ∀ a b : List (String × Json), Decidable (a = b)
  | [], [] => .isTrue rfl
  | (k, x) :: xs, (l, y) :: ys =>
    have := decEq x y
    have := decEqFields xs ys
    decidable_of_iff ((k = l ∧ x = y) ∧ xs = ys) (by rw [List.cons.injEq, Prod.mk.injEq])
  | [], _ :: _ | _ :: _, [] => .isFalse fun h => nomatch h

end

instance : DecidableEq Json := decEq

/-- The field of an object; other values have none. -/
def field (key : String) : Json → Option Json
  | .obj fields => fields.lookup key
  | _ => none

@[simp] theorem field_obj (key : String) (fields : List (String × Json)) :
    (Json.obj fields).field key = fields.lookup key := rfl

/-- `v.(string)`. -/
def asStr : Json → Option String
  | .str s => some s
  | _ => none

/-- `v.([]any)`. -/
def asArr : Json → Option (List Json)
  | .arr items => some items
  | _ => none

/-- `v.(map[string]any)`. -/
def asMap : Json → Option (GoMap Json)
  | .obj fields => some (GoMap.ofPairs fields)
  | _ => none

mutual

/-- The value with the fields of every object in the order of their keys. -/
def sorted : Json → Json
  | .arr items => .arr (sortedItems items)
  | .obj fields => .obj (sortedFields fields)
  | v => v

def sortedItems : List Json → List Json
  | [] => []
  | v :: rest => sorted v :: sortedItems rest

def sortedFields : List (String × Json) → List (String × Json)
  | [] => []
  | (k, v) :: rest => (sortedFields rest).orderedInsert (fun e e' => e.1 ≤ e'.1) (k, sorted v)

end

mutual

/-- `fmt.Sprintf("%v", v)`, where `number` prints the numbers. -/
def sprint (number : Rat → String) : Json → String
  | .null => "<nil>"
  | .bool b => toString b
  | .num n => number n
  | .str s => s
  | .arr items => "[" ++ " ".intercalate (sprintItems number items) ++ "]"
  | .obj fields =>
    let entries := (sprintFields number fields).insertionSort fun e e' => e.1 ≤ e'.1
    "map[" ++ " ".intercalate (entries.map fun e => e.1 ++ ":" ++ e.2) ++ "]"

def sprintItems (number : Rat → String) : List Json → List String
  | [] => []
  | v :: items => sprint number v :: sprintItems number items

def sprintFields (number : Rat → String) : List (String × Json) → List (String × String)
  | [] => []
  | (k, v) :: fields => (k, sprint number v) :: sprintFields number fields

end

end Json

namespace JsObject

variable {V : Type} {o : List (String × V)} {k k' : String} {v : V}

/-- The array index that a key is the decimal of. -/
def arrayIndex (k : String) : Option Nat :=
  match k.toList with
  | [] => none
  | ['0'] => some 0
  | c :: cs =>
    let n := (c :: cs).foldl (fun n c => 10 * n + (c.toNat - 48)) 0
    if c ≠ '0' ∧ (c :: cs).all Char.isDigit ∧ n < 4294967295 then some n else none

/-- A new field `k` is enumerated before `k'`. -/
def before (k k' : String) : Bool :=
  match arrayIndex k, arrayIndex k' with
  | some n, some n' => n < n'
  | some _, none => true
  | none, _ => false

/-- `o[k] = v`. -/
def set (k : String) (v : V) : List (String × V) → List (String × V)
  | [] => [(k, v)]
  | (k', v') :: rest =>
    if k = k' then (k, v) :: rest
    else if before k k' then (k, v) :: (k', v') :: rest
    else (k', v') :: set k v rest

/-- `o[k] = v` with any key: under the key `__proto__` an assignment sets the prototype of the object, which is none of
its fields. -/
def assign (k : String) (v : V) (o : List (String × V)) : List (String × V) :=
  if k = "__proto__" then o else set k v o

/-- `delete o[k]`. -/
def delete (k : String) (o : List (String × V)) : List (String × V) := o.filter fun e => e.1 ≠ k

theorem lookup_set_self (k : String) (v : V) (o : List (String × V)) : (set k v o).lookup k = some v := by
  induction o with
  | nil => simp [set]
  | cons e rest ih =>
    obtain ⟨l, w⟩ := e
    unfold set
    split_ifs with heq hbefore
    · exact List.lookup_cons_self
    · exact List.lookup_cons_self
    · rw [List.lookup_cons, beq_false_of_ne heq]
      exact ih

theorem lookup_set_of_ne (v : V) (o : List (String × V)) (h : k' ≠ k) : (set k v o).lookup k' = o.lookup k' := by
  induction o with
  | nil => simp [set, List.lookup_cons, beq_false_of_ne h]
  | cons e rest ih =>
    obtain ⟨l, w⟩ := e
    unfold set
    split_ifs with heq hbefore
    · subst heq
      simp [List.lookup_cons, beq_false_of_ne h]
    · simp [List.lookup_cons, beq_false_of_ne h]
    · simp only [List.lookup_cons, ih]

/-- A field that has the value already is not moved. -/
theorem set_of_lookup (hk : arrayIndex k = none) (h : o.lookup k = some v) : set k v o = o := by
  induction o with
  | nil => exact nomatch h
  | cons e rest ih =>
    obtain ⟨l, w⟩ := e
    have hbefore : before k l = false := by simp [before, hk]
    unfold set
    split_ifs with heq
    · subst heq
      rw [List.lookup_cons_self, Option.some.injEq] at h
      rw [h]
    · exact absurd ‹before k l = true› (by simp [hbefore])
    · rw [List.lookup_cons, beq_false_of_ne heq] at h
      rw [ih h]

theorem lookup_delete_self (k : String) (o : List (String × V)) : (delete k o).lookup k = none := by
  rw [List.lookup_eq_none_iff]
  intro e he
  have hne : e.1 ≠ k := of_decide_eq_true (List.mem_filter.1 he).2
  exact bne_iff_ne.2 hne.symm

theorem lookup_delete_of_ne (o : List (String × V)) (h : k' ≠ k) : (delete k o).lookup k' = o.lookup k' := by
  induction o with
  | nil => rfl
  | cons e rest ih =>
    unfold delete at ih ⊢
    rw [List.filter_cons, List.lookup_cons]
    by_cases heq : e.1 = k
    · rw [if_neg (by simpa using heq), ih, heq, beq_false_of_ne h]
    · rw [if_pos (by simpa using heq), List.lookup_cons, ih]

theorem delete_of_lookup (h : o.lookup k = none) : delete k o = o := by
  rw [delete, List.filter_eq_self]
  intro e he
  have hne : k ≠ e.1 := bne_iff_ne.1 (List.lookup_eq_none_iff.1 h e he)
  exact decide_eq_true hne.symm

/-! ### Filling an object -/

/-- The fields are in the order in which they are enumerated, and there is no field twice. -/
def Enumerated (o : List (String × V)) : Prop := o.Pairwise fun e e' => e.1 ≠ e'.1 ∧ before e'.1 e.1 = false

private theorem before_trans {k₁ k₂ k₃ : String} (h : before k₁ k₂ = true) (h' : before k₂ k₃ = true) :
    before k₁ k₃ = true := by
  unfold before at h h' ⊢
  cases h₁ : arrayIndex k₁ with
  | none => simp [h₁] at h
  | some n₁ =>
    cases h₂ : arrayIndex k₂ with
    | none => simp [h₂] at h'
    | some n₂ =>
      simp only [h₁, h₂, decide_eq_true_eq] at h
      cases h₃ : arrayIndex k₃ with
      | none => rfl
      | some n₃ =>
        simp only [h₂, h₃, decide_eq_true_eq] at h'
        simp only [decide_eq_true_eq]
        omega

private theorem before_asymm (h : before k k' = true) : before k' k = false := by
  unfold before at h ⊢
  cases hk : arrayIndex k with
  | none => simp [hk] at h
  | some n =>
    cases hk' : arrayIndex k' with
    | none => rfl
    | some n' =>
      simp only [hk, hk', decide_eq_true_eq] at h
      simp only [decide_eq_false_iff_not]
      omega

theorem mem_set {e : String × V} (h : e ∈ set k v o) : e = (k, v) ∨ e ∈ o := by
  induction o with
  | nil => exact .inl (by simpa [set] using h)
  | cons e' rest ih =>
    obtain ⟨l, w⟩ := e'
    unfold set at h
    split_ifs at h
    · rcases List.mem_cons.mp h with he | he
      · exact .inl he
      · exact .inr (List.mem_cons_of_mem _ he)
    · exact List.mem_cons.mp h
    · rcases List.mem_cons.mp h with he | he
      · exact .inr (he ▸ List.mem_cons_self)
      · exact (ih he).imp_right (List.mem_cons_of_mem _)

theorem Enumerated.set (h : Enumerated o) (k : String) (v : V) : Enumerated (set k v o) := by
  induction o with
  | nil => exact List.pairwise_singleton _ _
  | cons e rest ih =>
    obtain ⟨l, w⟩ := e
    obtain ⟨hfirst, hrest⟩ := List.pairwise_cons.mp h
    unfold JsObject.set
    split_ifs with heq hbefore
    · subst heq
      exact List.pairwise_cons.mpr ⟨hfirst, hrest⟩
    · refine List.pairwise_cons.mpr ⟨fun e he => ?_, h⟩
      rcases List.mem_cons.mp he with rfl | he
      · exact ⟨heq, before_asymm hbefore⟩
      · obtain ⟨-, hle⟩ := hfirst e he
        refine ⟨fun hk => ?_, Bool.eq_false_iff.mpr fun hek => ?_⟩
        · have hk : k = e.1 := hk
          rw [← hk, hbefore] at hle
          cases hle
        · rw [before_trans hek hbefore] at hle
          cases hle
    · refine List.pairwise_cons.mpr ⟨fun e he => ?_, ih hrest⟩
      rcases mem_set he with rfl | he
      · exact ⟨fun hl => heq hl.symm, Bool.eq_false_iff.mpr hbefore⟩
      · exact hfirst e he

/-- A new field that is enumerated after the others. -/
private theorem set_eq_append (hk : ∀ e ∈ o, e.1 ≠ k) (hafter : ∀ e ∈ o, before k e.1 = false) :
    set k v o = o ++ [(k, v)] := by
  induction o with
  | nil => rfl
  | cons e rest ih =>
    obtain ⟨l, w⟩ := e
    obtain ⟨hl, hk⟩ := List.forall_mem_cons.mp hk
    obtain ⟨hle, hafter⟩ := List.forall_mem_cons.mp hafter
    rw [set, if_neg (fun he => hl he.symm), if_neg (by simpa using hle), ih hk hafter]
    rfl

private theorem set_perm (hk : ∀ e ∈ o, e.1 ≠ k) : (set k v o).Perm ((k, v) :: o) := by
  induction o with
  | nil => exact .refl _
  | cons e rest ih =>
    obtain ⟨l, w⟩ := e
    obtain ⟨hl, hk⟩ := List.forall_mem_cons.mp hk
    rw [set, if_neg (fun he => hl he.symm)]
    split_ifs
    · exact .refl _
    · exact ((ih hk).cons _).trans (.swap _ _ _)

/-- The object with the fields of a list, set one after the other. -/
def fill (fields : List (String × V)) (o : List (String × V)) : List (String × V) :=
  fields.foldl (fun o e => set e.1 e.2 o) o

theorem mem_fill {fields : List (String × V)} {e : String × V} (h : e ∈ fill fields o) : e ∈ o ∨ e ∈ fields := by
  induction fields generalizing o with
  | nil => exact .inl h
  | cons e' fields ih =>
    rcases ih h with hset | hmem
    · rcases mem_set hset with rfl | ho
      · exact .inr List.mem_cons_self
      · exact .inl ho
    · exact .inr (List.mem_cons_of_mem _ hmem)

theorem enumerated_fill (fields : List (String × V)) (ho : Enumerated o) : Enumerated (fill fields o) := by
  induction fields generalizing o with
  | nil => exact ho
  | cons e fields ih => exact ih (ho.set e.1 e.2)

theorem fill_of_enumerated {fields : List (String × V)} (h : Enumerated (o ++ fields)) :
    fill fields o = o ++ fields := by
  induction fields generalizing o with
  | nil => rw [List.append_nil]; rfl
  | cons e fields ih =>
    obtain ⟨-, -, hcross⟩ := List.pairwise_append.mp h
    have hset : set e.1 e.2 o = o ++ [e] :=
      set_eq_append (fun e' he' => (hcross e' he' e List.mem_cons_self).1)
        fun e' he' => (hcross e' he' e List.mem_cons_self).2
    show fill fields (set e.1 e.2 o) = _
    rw [hset, ih (by simpa using h)]
    simp

theorem fill_perm {fields : List (String × V)} (h : ((o ++ fields).map Prod.fst).Nodup) :
    (fill fields o).Perm (o ++ fields) := by
  induction fields generalizing o with
  | nil => rw [List.append_nil]; exact .refl _
  | cons e fields ih =>
    have hnew : ∀ e' ∈ o, e'.1 ≠ e.1 := by
      intro e' he' heq
      rw [List.map_append, List.nodup_append] at h
      exact h.2.2 e'.1 (List.mem_map_of_mem he') e.1 (by simp) heq
    have hset : (set e.1 e.2 o).Perm (e :: o) := set_perm hnew
    have hperm : (set e.1 e.2 o ++ fields).Perm (o ++ e :: fields) :=
      (hset.append_right fields).trans List.perm_middle.symm
    exact (ih ((hperm.map Prod.fst).nodup_iff.mpr h)).trans hperm

theorem foldl_assign (fields : List (String × V)) (o : List (String × V)) :
    fields.foldl (fun o e => assign e.1 e.2 o) o = fill (fields.filter fun e => e.1 ≠ "__proto__") o := by
  induction fields generalizing o with
  | nil => rfl
  | cons e fields ih =>
    rw [List.foldl_cons, ih, assign, List.filter_cons]
    by_cases hproto : e.1 = "__proto__"
    · simp [hproto]
    · simp [hproto, fill]

end JsObject
