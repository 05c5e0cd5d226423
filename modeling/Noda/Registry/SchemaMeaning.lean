import Noda.Registry.ConfigSchema

/-!
# What a schema means

The keywords of a schema as conditions on a value (`Satisfies`), for the schemas of the vocabulary.

`validateNodeConfig_spec`: on such schemas the walker finds no error exactly if the config satisfies every keyword at
every depth, and an expression may take the place of any part of such a config that is not inside an object or array
that an enum lists.
-/

namespace Noda.Registry

open Json (Fields)

/-! ### The shapes of the keywords -/

def VocabOk (schema : Fields) : Prop := ∃ path, checkVocab path schema = []

section

variable {schema : Fields}

private theorem checkKeyword_of_mem {path : String} (h : checkKeywords path schema = []) {e : String × Json}
    (he : e ∈ schema) :
    checkKeyword path e.1 e.2 = [] := by
  induction schema with
  | nil => exact absurd he List.not_mem_nil
  | cons e' schema ih =>
    obtain ⟨k, v⟩ := e'
    rw [checkKeywords, List.append_eq_nil_iff] at h
    rcases List.mem_cons.1 he with rfl | he
    · exact h.1
    · exact ih h.2 he

theorem VocabOk.keyword (h : VocabOk schema) {k : String} {v : Json} (hk : schema.lookup k = some v) :
    ∃ path, checkKeyword path k v = [] := by
  obtain ⟨path, hpath⟩ := h
  rw [checkVocab, List.append_eq_nil_iff] at hpath
  exact ⟨path, checkKeyword_of_mem hpath.1 (Assoc.mem_of_lookup hk)⟩

/-- A keyword without schemas in it has been checked. -/
theorem VocabOk.plain (h : VocabOk schema) {k : String} {v : Json} (hk : schema.lookup k = some v)
    (hannotate : k ∉ annotationKeywords) (hproperties : k ≠ "properties") (hitems : k ≠ "items") (hone : k ≠ "oneOf") :
    ∃ path, checkPlain path k v = [] := by
  obtain ⟨path, hpath⟩ := h.keyword hk
  refine ⟨path, ?_⟩
  cases v with
  | obj sub => rwa [checkKeyword, if_neg hannotate, if_neg hproperties, if_neg hitems] at hpath
  | arr branches => rwa [checkKeyword, if_neg hannotate, if_neg hone] at hpath
  | _ =>
    rw [checkKeyword, if_neg hannotate] at hpath
    · exact hpath
    all_goals simp

/-- A keyword with schemas in it has the right shape. -/
private theorem checkPlain_ne_nil {path k : String} (v : Json) (h : k = "properties" ∨ k = "items" ∨ k = "oneOf") :
    checkPlain path k v ≠ [] := by
  unfold checkPlain
  rcases h with rfl | rfl | rfl
  · simp
  · simp
  · simp

private theorem obj_of_checkKeyword {path k : String} {v : Json} (hk : k = "properties" ∨ k = "items")
    (h : checkKeyword path k v = []) : ∃ fields, v = .obj fields := by
  have hannotate : k ∉ annotationKeywords := by rcases hk with rfl | rfl <;> decide
  have hplain : checkPlain path k v ≠ [] := checkPlain_ne_nil v (hk.imp_right .inl)
  cases v with
  | obj fields => exact ⟨fields, rfl⟩
  | arr branches =>
    have hone : k ≠ "oneOf" := by rcases hk with rfl | rfl <;> decide
    rw [checkKeyword, if_neg hannotate, if_neg hone] at h
    exact absurd h hplain
  | _ =>
    rw [checkKeyword, if_neg hannotate] at h
    · exact absurd h hplain
    all_goals simp

theorem VocabOk.properties (h : VocabOk schema) {v : Json} (hk : schema.lookup "properties" = some v) :
    ∃ props, v = .obj props ∧ ∀ e ∈ props, ∃ sub, e.2 = .obj sub ∧ VocabOk sub := by
  obtain ⟨path, hpath⟩ := h.keyword hk
  obtain ⟨props, rfl⟩ := obj_of_checkKeyword (.inl rfl) hpath
  refine ⟨props, rfl, ?_⟩
  rw [checkKeyword, if_neg (by decide), if_pos rfl] at hpath
  clear hk
  induction props with
  | nil => simp
  | cons e props ih =>
    obtain ⟨name, v⟩ := e
    cases v with
    | obj sub =>
      rw [checkProperties, List.append_eq_nil_iff] at hpath
      exact List.forall_mem_cons.2 ⟨⟨sub, rfl, _, hpath.1⟩, ih hpath.2⟩
    | _ =>
      rw [checkProperties] at hpath
      · cases hpath
      all_goals simp

theorem VocabOk.items (h : VocabOk schema) {v : Json} (hk : schema.lookup "items" = some v) :
    ∃ items, v = .obj items ∧ VocabOk items := by
  obtain ⟨path, hpath⟩ := h.keyword hk
  obtain ⟨items, rfl⟩ := obj_of_checkKeyword (.inr rfl) hpath
  rw [checkKeyword, if_neg (by decide), if_neg (by decide), if_pos rfl] at hpath
  exact ⟨items, rfl, _, hpath⟩

theorem VocabOk.oneOf (h : VocabOk schema) {v : Json} (hk : schema.lookup "oneOf" = some v) :
    ∃ branches, v = .arr branches ∧ ∀ b ∈ branches, ∃ sub, b = .obj sub ∧ VocabOk sub := by
  obtain ⟨path, hpath⟩ := h.keyword hk
  cases v with
  | arr branches =>
    refine ⟨branches, rfl, ?_⟩
    rw [checkKeyword, if_neg (by decide), if_pos rfl] at hpath
    clear hk
    generalize 0 = i at hpath
    induction branches generalizing i with
    | nil => simp
    | cons b branches ih =>
      cases b with
      | obj sub =>
        rw [checkBranches] at hpath
        rw [List.append_eq_nil_iff] at hpath
        exact List.forall_mem_cons.2 ⟨⟨sub, rfl, _, hpath.1⟩, ih _ hpath.2⟩
      | _ =>
        rw [checkBranches] at hpath
        · cases hpath
        all_goals simp
  | obj sub =>
    rw [checkKeyword, if_neg (by decide), if_neg (by decide), if_neg (by decide)] at hpath
    exact absurd hpath (checkPlain_ne_nil _ (by simp))
  | _ =>
    rw [checkKeyword, if_neg (by decide)] at hpath
    · exact absurd hpath (checkPlain_ne_nil _ (by simp))
    all_goals simp

/-- Beside `oneOf` there are only annotations. -/
theorem VocabOk.alone (h : VocabOk schema) {v : Json} (hk : schema.lookup "oneOf" = some v) {k : String}
    (hne : k ≠ "oneOf") (hannotate : k ∉ annotationKeywords) : schema.lookup k = none := by
  obtain ⟨path, hpath⟩ := h
  rw [checkVocab, List.append_eq_nil_iff, siblingErrors, if_pos (by rw [hk]; rfl), List.map_eq_nil_iff,
    List.filter_eq_nil_iff] at hpath
  rw [Assoc.lookup_eq_none]
  intro w hw
  exact hpath.2 (k, w) hw (decide_eq_true ⟨hne, hannotate⟩)

theorem VocabOk.required (h : VocabOk schema) {v : Json} (hk : schema.lookup "required" = some v) :
    ∃ names, v = .arr names := by
  obtain ⟨path, hpath⟩ := h.plain hk (by decide) (by decide) (by decide) (by decide)
  cases v with
  | arr names => exact ⟨names, rfl⟩
  | _ => cases hpath

theorem VocabOk.enum (h : VocabOk schema) {v : Json} (hk : schema.lookup "enum" = some v) :
    ∃ members, v = .arr members := by
  obtain ⟨path, hpath⟩ := h.plain hk (by decide) (by decide) (by decide) (by decide)
  cases v with
  | arr members => exact ⟨members, rfl⟩
  | _ => cases hpath

theorem VocabOk.additional (h : VocabOk schema) {v : Json} (hk : schema.lookup "additionalProperties" = some v) :
    ∃ b, v = .bool b := by
  obtain ⟨path, hpath⟩ := h.plain hk (by decide) (by decide) (by decide) (by decide)
  cases v with
  | bool b => exact ⟨b, rfl⟩
  | _ => cases hpath

theorem VocabOk.type (h : VocabOk schema) {v : Json} (hk : schema.lookup "type" = some v) :
    (∃ t, v = .str t) ∨ ∃ ts, v = .arr ts := by
  obtain ⟨path, hpath⟩ := h.plain hk (by decide) (by decide) (by decide) (by decide)
  cases v with
  | str t => exact .inl ⟨t, rfl⟩
  | arr ts => exact .inr ⟨ts, rfl⟩
  | _ => cases hpath

end

/-! ### The keywords as conditions -/

inductive HasType : Json → String → Prop where
  | object (fields) : HasType (.obj fields) "object"
  | array (items) : HasType (.arr items) "array"
  | string (s) : HasType (.str s) "string"
  | boolean (b) : HasType (.bool b) "boolean"
  | null : HasType .null "null"
  | number (n) : HasType (.num n) "number"
  | integer (n : Int) : HasType (.num n) "integer"

/-- The type is the declared one, or one of the declared ones. -/
inductive AllowsType : Json → Json → Prop where
  | name {t value} : HasType value t → AllowsType (.str t) value
  | names {ts t value} : .str t ∈ ts → HasType value t → AllowsType (.arr ts) value

/-- Fields that are not declared are rejected: if that is said, and at the root of the config also if nothing is said
but some fields are declared. -/
def Strict (root : Bool) (schema : Fields) : Prop :=
  schema.lookup "additionalProperties" = some (.bool false) ∨
    schema.lookup "additionalProperties" = none ∧ root = true ∧ ∃ props, schema.lookup "properties" = some (.obj props)

/-- The conditions of the keywords that are about the value itself. -/
structure Meets (root : Bool) (schema : Fields) (value : Json) : Prop where
  enum : ∀ members, schema.lookup "enum" = some (.arr members) → ∃ member ∈ members, Json.Same value member
  type : ∀ declared, schema.lookup "type" = some declared → AllowsType declared value
  required : ∀ names name, schema.lookup "required" = some (.arr names) → .str name ∈ names →
    ∀ obj, value = .obj obj → ∃ v, (name, v) ∈ obj
  declared : Strict root schema → ∀ obj, value = .obj obj → ∀ e ∈ obj,
    ∃ props sub, schema.lookup "properties" = some (.obj props) ∧ props.lookup e.1 = some sub

/-- The value satisfies the schema: it is an expression, or it meets the keywords of the schema and its parts satisfy
the schemas for them.  `root` is true for the config itself, also in the branches of `oneOf`. -/
def Satisfies (root : Bool) (schema : Fields) (value : Json) : Prop :=
  isExpression value = true ∨
    Meets root schema value ∧
    (∀ branches, (h : schema.lookup "oneOf" = some (.arr branches)) →
      ∃ branch, ∃ _ : Json.obj branch ∈ branches, Satisfies root branch value) ∧
    (∀ props, (h : schema.lookup "properties" = some (.obj props)) → ∀ obj, value = .obj obj → ∀ e ∈ obj, ∀ sub,
      (h' : props.lookup e.1 = some (.obj sub)) → Satisfies false sub e.2) ∧
    ∀ items, (h : schema.lookup "items" = some (.obj items)) → ∀ arr, value = .arr arr → ∀ el ∈ arr,
      Satisfies false items el
termination_by sizeOf schema
decreasing_by
  · rename_i hbranch
    exact sizeOf_branch_lt h hbranch
  · exact (sizeOf_sub_lt h').trans (sizeOf_sub_lt h)
  · exact sizeOf_sub_lt h

/-! ### The walker and the conditions -/

private theorem matchesType_iff (v : Json) (t : String) : matchesType v t = true ↔ HasType v t := by
  constructor
  · intro h
    unfold matchesType at h
    split at h
    · exact .object _
    · exact .array _
    · exact .string _
    · exact .boolean _
    · exact .null
    · exact .number _
    · rename_i n
      rw [Rat.eq_num_of_isInt h]
      exact .integer n.num
    · cases h
  · intro h
    cases h with
    | integer n => simp [matchesType, Rat.isInt]
    | _ => rfl

private theorem typeAllows_iff {declared value : Json} (hshape : (∃ t, declared = .str t) ∨ ∃ ts, declared = .arr ts) :
    typeAllows (some declared) value = true ↔ AllowsType declared value := by
  rcases hshape with ⟨t, rfl⟩ | ⟨ts, rfl⟩
  · rw [typeAllows, matchesType_iff]
    exact ⟨.name, by rintro ⟨⟩; assumption⟩
  · rw [typeAllows, List.any_eq_true]
    constructor
    · rintro ⟨one, hone, hmatch⟩
      cases one with
      | str t => exact .names hone ((matchesType_iff value t).1 hmatch)
      | _ => cases hmatch
    · intro h
      cases h with
      | names hone htype => exact ⟨_, hone, (matchesType_iff value _).2 htype⟩

private theorem looseEqual_iff {a b : Json} (ha : a.distinct = true) (hb : b.distinct = true) :
    looseEqual a b = true ↔ Json.Same a b := by
  rw [← Json.deepEqual_iff ha hb]
  cases a with
  | num n => cases b <;> simp [looseEqual, Json.deepEqual]
  | _ => rfl

section

variable {schema : Fields} {value : Json} {path : String} {root : Bool}

private theorem enumError_eq_none (hschema : (Json.obj schema).distinct = true) (hvalue : value.distinct = true) :
    enumError schema value path = none ↔
      ∀ members, schema.lookup "enum" = some (.arr members) → ∃ member ∈ members, Json.Same value member := by
  unfold enumError
  split
  · rename_i members hlookup
    have hdistinct : ∀ member ∈ members, member.distinct = true := by
      have harr := (Json.distinct_obj.1 hschema).2 _ (Assoc.mem_of_lookup hlookup)
      rw [Json.distinct] at harr
      exact Json.distinctItems_iff.1 harr
    have hany : members.any (looseEqual value) = true ↔ ∃ member ∈ members, Json.Same value member := by
      rw [List.any_eq_true]
      refine exists_congr fun member => and_congr_right fun hmember => ?_
      exact looseEqual_iff hvalue (hdistinct member hmember)
    simp only [hlookup, Option.some.injEq, Json.arr.injEq, forall_eq', ← hany]
    split_ifs with h
    · simp [h]
    · simp [h]
  · rename_i hnot
    exact iff_of_true rfl fun members hlookup => absurd hlookup (hnot members)

private theorem typeError_eq_none (hvocab : VocabOk schema) :
    typeError schema value path = none ↔ ∀ declared, schema.lookup "type" = some declared →
      AllowsType declared value := by
  rw [typeError]
  cases htype : schema.lookup "type" with
  | none => simp [typeAllows]
  | some declared =>
    simp only [Option.some.injEq, forall_eq']
    rw [← typeAllows_iff (hvocab.type htype)]
    split_ifs with h
    · simp [h]
    · simp [h]

private theorem requiredErrors_eq_nil (obj : Fields) :
    requiredErrors schema path obj = [] ↔
      ∀ names name, schema.lookup "required" = some (.arr names) → .str name ∈ names → ∃ v, (name, v) ∈ obj := by
  unfold requiredErrors
  split
  · rename_i names hlookup
    rw [List.filterMap_eq_nil_iff]
    constructor
    · intro h names' name hlookup' hname
      rw [hlookup] at hlookup'
      cases hlookup'
      have hmem : name ∈ names.filterMap Json.asStr := List.mem_filterMap.2 ⟨.str name, hname, rfl⟩
      have hok := h name hmem
      cases hv : obj.lookup name with
      | none => simp [hv] at hok
      | some v => exact ⟨v, Assoc.mem_of_lookup hv⟩
    · intro h name hname
      obtain ⟨r, hr, hstr⟩ := List.mem_filterMap.1 hname
      cases r with
      | str s =>
        cases hstr
        obtain ⟨v, hv⟩ := h names name hlookup hr
        have hsome : (obj.lookup name).isSome = true := by
          rw [Option.isSome_iff_ne_none]
          exact Json.lookup_ne_none.2 (List.mem_map.2 ⟨(name, v), hv, rfl⟩)
        rw [if_pos hsome]
      | _ => cases hstr
  · rename_i hnot
    exact iff_of_true rfl fun names _ hlookup => absurd hlookup (hnot names)

private theorem propsOf_eq_some {props : Fields} :
    propsOf schema = some props ↔ schema.lookup "properties" = some (.obj props) := by
  unfold propsOf
  split
  · rename_i props' hlookup
    rw [hlookup]
    simp
  · rename_i hnot
    exact iff_of_false (by simp) (hnot props)

private theorem isStrict_iff (hvocab : VocabOk schema) (hroot : root = true → path = "") :
    isStrict schema path root = true ↔ Strict root schema := by
  unfold isStrict Strict
  cases hap : schema.lookup "additionalProperties" with
  | some v =>
    obtain ⟨b, rfl⟩ := hvocab.additional hap
    cases b <;> simp
  | none =>
    simp only [← propsOf_eq_some, Bool.and_eq_true, decide_eq_true_eq, Option.isSome_iff_exists]
    constructor
    · rintro ⟨⟨hr, -⟩, hprops⟩
      exact .inr ⟨trivial, hr, hprops⟩
    · rintro (h | ⟨-, hr, hprops⟩)
      · cases h
      · exact ⟨⟨hr, hroot hr⟩, hprops⟩

private theorem distinct_sub {fields sub : Fields} {key : String} (h : (Json.obj fields).distinct = true)
    (hsub : fields.lookup key = some (.obj sub)) : (Json.obj sub).distinct = true :=
  (Json.distinct_obj.1 h).2 _ (Assoc.mem_of_lookup hsub)

private theorem distinct_branch {fields : Fields} {branches : List Json} {key : String} {b : Json}
    (h : (Json.obj fields).distinct = true) (hone : fields.lookup key = some (.arr branches)) (hb : b ∈ branches) :
    b.distinct = true := by
  have harr := (Json.distinct_obj.1 h).2 _ (Assoc.mem_of_lookup hone)
  rw [Json.distinct] at harr
  exact Json.distinctItems_iff.1 harr b hb

/-- A schema with `oneOf` has no other conditions. -/
private theorem meets_of_oneOf (hvocab : VocabOk schema) {v : Json} (hone : schema.lookup "oneOf" = some v) :
    Meets root schema value := by
  have hnone {k : String} (hne : k ≠ "oneOf") (hannotate : k ∉ annotationKeywords) : schema.lookup k = none :=
    hvocab.alone hone hne hannotate
  refine ⟨?_, ?_, ?_, ?_⟩
  · simp [hnone (k := "enum") (by decide) (by decide)]
  · simp [hnone (k := "type") (by decide) (by decide)]
  · simp [hnone (k := "required") (by decide) (by decide)]
  · rintro (h | ⟨-, -, props, hprops⟩)
    · simp [hnone (k := "additionalProperties") (by decide) (by decide)] at h
    · simp [hnone (k := "properties") (by decide) (by decide)] at hprops

/-- The loop over the fields checks the declared fields, and that there are no others where the schema is strict. -/
private theorem validateFields_iff (hvocab : VocabOk schema) (hroot : root = true → path = "") {obj : Fields}
    (ih : ∀ props sub, schema.lookup "properties" = some (.obj props) → ∀ e ∈ obj, props.lookup e.1 = some (.obj sub) →
      ∀ path, validateValue sub e.2 path false = [] ↔ Satisfies false sub e.2) :
    validateFields ((propsOf schema).getD []) (isStrict schema path root) path obj = [] ↔
      (Strict root schema → ∀ e ∈ obj, ∃ props sub, schema.lookup "properties" = some (.obj props) ∧
        props.lookup e.1 = some sub) ∧
      ∀ props, schema.lookup "properties" = some (.obj props) → ∀ e ∈ obj, ∀ sub, props.lookup e.1 = some (.obj sub) →
        Satisfies false sub e.2 := by
  rw [validateFields_eq_nil, isStrict_iff hvocab hroot]
  cases hprops : schema.lookup "properties" with
  | none =>
    have hnone : propsOf schema = none := by rw [propsOf, hprops]
    rw [hnone, Option.getD_none]
    constructor
    · intro h
      refine ⟨fun hstrict e he => ?_, fun props heq => absurd heq (by simp)⟩
      obtain ⟨sub, hsub⟩ := (h e he).2 hstrict
      cases hsub
    · rintro ⟨hdeclared, -⟩ e he
      refine ⟨fun sub hsub => absurd hsub (by simp), fun hstrict => ?_⟩
      obtain ⟨props, sub, heq, -⟩ := hdeclared hstrict e he
      cases heq
  | some v =>
    obtain ⟨props, rfl, hsubs⟩ := hvocab.properties hprops
    rw [propsOf_eq_some.2 hprops, Option.getD_some]
    constructor
    · intro h
      refine ⟨fun hstrict e he => ?_, fun props' heq e he sub hsub => ?_⟩
      · obtain ⟨sub, hsub⟩ := (h e he).2 hstrict
        exact ⟨props, .obj sub, rfl, hsub⟩
      · cases heq
        exact (ih props sub hprops e he hsub _).1 ((h e he).1 sub hsub)
    · rintro ⟨hdeclared, hsatisfies⟩ e he
      refine ⟨fun sub hsub => ?_, fun hstrict => ?_⟩
      · exact (ih props sub hprops e he hsub _).2 (hsatisfies props rfl e he sub hsub)
      · obtain ⟨props', v, heq, hv⟩ := hdeclared hstrict e he
        cases heq
        obtain ⟨sub, hsub, -⟩ := hsubs (e.1, v) (Assoc.mem_of_lookup hv)
        have hsub : v = .obj sub := hsub
        exact ⟨sub, hsub ▸ hv⟩

end

private theorem validateValue_iff (schema : Fields) (hvocab : VocabOk schema)
    (hschema : (Json.obj schema).distinct = true)
    (value : Json) (hvalue : value.distinct = true) (path : String) (root : Bool) (hroot : root = true → path = "") :
    validateValue schema value path root = [] ↔ Satisfies root schema value := by
  rw [Satisfies]
  cases hexpr : isExpression value with
  | true => simp [validateValue_expression hexpr]
  | false =>
    rw [or_iff_right (by simp)]
    cases hone : schema.lookup "oneOf" with
    | some v =>
      obtain ⟨branches, rfl, hbranches⟩ := hvocab.oneOf hone
      have hnone {k : String} (hne : k ≠ "oneOf") (hannotate : k ∉ annotationKeywords) : schema.lookup k = none :=
        hvocab.alone hone hne hannotate
      rw [validateValue_oneOf hexpr hone, validateBranches_eq_nil, and_iff_right (meets_of_oneOf hvocab hone),
        and_iff_left (by
          simp [hnone (k := "properties") (by decide) (by decide), hnone (k := "items") (by decide) (by decide)])]
      simp only [Option.some.injEq, Json.arr.injEq, forall_eq']
      refine exists_congr fun branch => ?_
      rw [exists_prop]
      refine and_congr_right fun hbranch => ?_
      have hlt := sizeOf_branch_lt hone hbranch
      obtain ⟨sub, heq, hsub⟩ := hbranches _ hbranch
      cases heq
      exact validateValue_iff branch hsub (distinct_branch hschema hone hbranch) value hvalue path root hroot
    | none =>
      have hfield (obj : Fields) (hv : value = .obj obj) (props sub : Fields)
          (hprops : schema.lookup "properties" = some (.obj props)) (e : String × Json) (he : e ∈ obj)
          (hsub : props.lookup e.1 = some (.obj sub)) (path' : String) :
          validateValue sub e.2 path' false = [] ↔ Satisfies false sub e.2 := by
        subst hv
        obtain ⟨props', heq, hsubs⟩ := hvocab.properties hprops
        cases heq
        obtain ⟨sub', heq, hvocab'⟩ := hsubs _ (Assoc.mem_of_lookup hsub)
        cases heq
        have hlt := (sizeOf_sub_lt hsub).trans (sizeOf_sub_lt hprops)
        exact validateValue_iff sub hvocab' (distinct_sub (distinct_sub hschema hprops) hsub) e.2
          ((Json.distinct_obj.1 hvalue).2 e he) path' false (by simp)
      have harr (arr : List Json) (items : Fields) (hv : value = .arr arr)
          (hitems : schema.lookup "items" = some (.obj items)) :
          validateItems items path 0 arr = [] ↔ ∀ el ∈ arr, Satisfies false items el := by
        subst hv
        obtain ⟨items', heq, hvocab'⟩ := hvocab.items hitems
        cases heq
        rw [Json.distinct] at hvalue
        have hlt := sizeOf_sub_lt hitems
        exact validateItems_eq_nil items 0 arr fun el hel path' =>
          validateValue_iff items hvocab' (distinct_sub hschema hitems) el
            (Json.distinctItems_iff.1 hvalue el hel) path'
            false (by simp)
      rw [validateValue_plain hexpr (by simp [hone]), enumError_eq_none hschema hvalue, typeError_eq_none hvocab]
      constructor
      · rintro ⟨henum, htype, hobj, harr'⟩
        have hfields (obj : Fields) (hv : value = .obj obj) :=
          (validateFields_iff hvocab hroot (hfield obj hv)).1 (hobj obj hv).2
        refine ⟨⟨henum, htype, fun names name hn hmem obj hv => ?_, fun hstrict obj hv => (hfields obj hv).1 hstrict⟩,
          fun branches h => absurd h (by simp), fun props hprops obj hv => (hfields obj hv).2 props hprops,
          fun items hitems arr hv => (harr arr items hv hitems).1 (harr' arr items hv hitems)⟩
        exact (requiredErrors_eq_nil obj).1 (hobj obj hv).1 names name hn hmem
      · rintro ⟨hmeets, -, hprops, hitems⟩
        refine ⟨hmeets.enum, hmeets.type, fun obj hv => ⟨(requiredErrors_eq_nil obj).2 ?_,
          (validateFields_iff hvocab hroot (hfield obj hv)).2 ⟨?_, ?_⟩⟩, fun arr items hv h => ?_⟩
        · exact fun names name hn hmem => hmeets.required names name hn hmem obj hv
        · exact fun hstrict => hmeets.declared hstrict obj hv
        · exact fun props h => hprops props h obj hv
        · exact (harr arr items hv h).2 (hitems items h arr hv)
termination_by sizeOf schema

/-! ### Expressions in the place of values -/

/-- The schema, and the branches of its `oneOf`: what applies to a value if the schema does. -/
inductive BranchOf : Fields → Fields → Prop where
  | refl (schema) : BranchOf schema schema
  | oneOf {schema branches branch b} : schema.lookup "oneOf" = some (.arr branches) → .obj branch ∈ branches →
      BranchOf branch b → BranchOf schema b

def Lists (schema : Fields) (v : Json) : Prop :=
  ∃ members member, schema.lookup "enum" = some (.arr members) ∧ member ∈ members ∧ Json.Same v member

/-- The schemas that apply to a field if those in `S` apply to the object. -/
def FieldSchemas (S : Fields → Prop) (key : String) (b : Fields) : Prop :=
  ∃ schema props sub, S schema ∧ schema.lookup "properties" = some (.obj props) ∧ props.lookup key = some (.obj sub) ∧
    BranchOf sub b

/-- The schemas that apply to the items if those in `S` apply to the array. -/
def ItemSchemas (S : Fields → Prop) (b : Fields) : Prop :=
  ∃ schema items, S schema ∧ schema.lookup "items" = some (.obj items) ∧ BranchOf items b

/-- An expression takes the place of a part of a value to which the schemas in `S` apply; none of the objects and arrays
that the part is in is listed by an enum that applies to it. -/
inductive Replaces : (Fields → Prop) → Json → Json → Prop where
  | here {S v s} : isExpression (.str s) = true → Replaces S v (.str s)
  | field {S pre post k v v'} : (∀ schema, S schema → ¬Lists schema (.obj (pre ++ (k, v) :: post))) →
      Replaces (FieldSchemas S k) v v' → Replaces S (.obj (pre ++ (k, v) :: post)) (.obj (pre ++ (k, v') :: post))
  | item {S pre post v v'} : (∀ schema, S schema → ¬Lists schema (.arr (pre ++ v :: post))) →
      Replaces (ItemSchemas S) v v' → Replaces S (.arr (pre ++ v :: post)) (.arr (pre ++ v' :: post))

/-- The type of an object does not depend on its fields, nor that of an array on its items. -/
private theorem allowsType_of_hasType {declared v v' : Json} (htype : ∀ t, HasType v t → HasType v' t)
    (h : AllowsType declared v) : AllowsType declared v' := by
  cases h with
  | name h => exact .name (htype _ h)
  | names hmem h => exact .names hmem (htype _ h)

private theorem mem_replaced {α : Type} {pre post : List α} {a a' b : α} (h : b ∈ pre ++ a' :: post) :
    b = a' ∨ b ∈ pre ++ a :: post := by
  rcases List.mem_append.1 h with h | h
  · exact .inr (List.mem_append_left _ h)
  · rcases List.mem_cons.1 h with h | h
    · exact .inl h
    · exact .inr (List.mem_append_right _ (List.mem_cons_of_mem _ h))

theorem Meets.enum_not_listed {root : Bool} {schema : Fields} {v v' : Json} (h : Meets root schema v)
    (haround : ¬Lists schema v) {members : List Json} (hmembers : schema.lookup "enum" = some (.arr members)) :
    ∃ member ∈ members, Json.Same v' member := by
  obtain ⟨member, hmember, hsame⟩ := h.enum members hmembers
  exact absurd ⟨members, member, hmembers, hmember, hsame⟩ haround

/-- A field is replaced: the keywords about the object itself are still met, unless an enum lists the object. -/
theorem Meets.replace_field {root : Bool} {schema pre post : Fields} {k : String} {v : Json} (v' : Json)
    (h : Meets root schema (.obj (pre ++ (k, v) :: post))) (haround : ¬Lists schema (.obj (pre ++ (k, v) :: post))) :
    Meets root schema (.obj (pre ++ (k, v') :: post)) where
  enum _ := h.enum_not_listed haround
  type declared hdeclared := by
    refine allowsType_of_hasType ?_ (h.type declared hdeclared)
    rintro t ⟨⟩
    exact .object _
  required := by
    rintro names name hnames hname obj ⟨⟩
    obtain ⟨w, hw⟩ := h.required names name hnames hname _ rfl
    rcases mem_replaced (a := (k, v')) hw with heq | hw
    · obtain ⟨rfl, -⟩ := Prod.mk.inj heq
      exact ⟨v', by simp⟩
    · exact ⟨w, hw⟩
  declared := by
    rintro hstrict obj ⟨⟩ e he
    rcases mem_replaced (a := (k, v)) he with rfl | he
    · exact h.declared hstrict _ rfl (k, v) (by simp)
    · exact h.declared hstrict _ rfl e he

theorem Meets.replace_item {root : Bool} {schema : Fields} {pre post : List Json} {v : Json} (v' : Json)
    (h : Meets root schema (.arr (pre ++ v :: post))) (haround : ¬Lists schema (.arr (pre ++ v :: post))) :
    Meets root schema (.arr (pre ++ v' :: post)) where
  enum _ := h.enum_not_listed haround
  type declared hdeclared := by
    refine allowsType_of_hasType ?_ (h.type declared hdeclared)
    rintro t ⟨⟩
    exact .array _
  required := by rintro names name - - obj ⟨⟩
  declared := by rintro - obj ⟨⟩

private theorem satisfies_replaces (schema : Fields) {S : Fields → Prop} (hS : ∀ b, BranchOf schema b → S b)
    {root : Bool}
    {value value' : Json} (h : Satisfies root schema value) (hreplaces : Replaces S value value') :
    Satisfies root schema value' := by
  have hself : S schema := hS schema (.refl schema)
  have hbranch (branches : List Json) (hlookup : schema.lookup "oneOf" = some (.arr branches)) :
      (∃ branch, ∃ _ : Json.obj branch ∈ branches, Satisfies root branch value) →
        ∃ branch, ∃ _ : Json.obj branch ∈ branches, Satisfies root branch value' := by
    rintro ⟨branch, hmem, hsat⟩
    have hlt := sizeOf_branch_lt hlookup hmem
    exact ⟨branch, hmem, satisfies_replaces branch (fun b hb => hS b (.oneOf hlookup hmem hb)) hsat hreplaces⟩
  rw [Satisfies] at h ⊢
  cases hreplaces with
  | here hexpr => exact .inl hexpr
  | @field _ pre post k v v' haround hv =>
    rcases h with h | ⟨hmeets, hone, hprops, -⟩
    · cases h
    refine .inr ⟨hmeets.replace_field v' (haround schema hself), fun branches h => hbranch branches h (hone branches h),
      ?_, ?_⟩
    · rintro props hlookup obj ⟨⟩ e he sub hsub
      rcases mem_replaced (a := (k, v)) he with rfl | he
      · have hlt := (sizeOf_sub_lt hsub).trans (sizeOf_sub_lt hlookup)
        refine satisfies_replaces sub (fun b hb => ?_) (hprops props hlookup _ rfl (k, v) (by simp) sub hsub) hv
        exact ⟨schema, props, sub, hself, hlookup, hsub, hb⟩
      · exact hprops props hlookup _ rfl e he sub hsub
    · rintro items - arr ⟨⟩
  | @item _ pre post v v' haround hv =>
    rcases h with h | ⟨hmeets, hone, -, hitems⟩
    · cases h
    refine .inr ⟨hmeets.replace_item v' (haround schema hself), fun branches h => hbranch branches h (hone branches h),
      ?_, ?_⟩
    · rintro props - obj ⟨⟩
    · rintro items hlookup arr ⟨⟩ el hel
      rcases mem_replaced (a := v) hel with rfl | hel
      · have hlt := sizeOf_sub_lt hlookup
        refine satisfies_replaces items (fun b hb => ?_) (hitems items hlookup _ rfl v (by simp)) hv
        exact ⟨schema, items, hself, hlookup, hb⟩
      · exact hitems items hlookup _ rfl el hel
termination_by sizeOf schema

/-! ### The walker -/

private theorem validateNodeConfig_iff {schema : JsonMap} (hvocab : checkSchemaVocabulary schema = [])
    (config : JsonMap) :
    validateNodeConfig schema config = [] ↔ Satisfies true schema.fields (.obj config.fields) :=
  validateValue_iff schema.fields ⟨"", hvocab⟩ schema.distinct _ config.distinct "" true fun _ => rfl

theorem validateNodeConfig_spec (schema : JsonMap) (hvocab : checkSchemaVocabulary schema = []) (config : JsonMap) :
    (validateNodeConfig schema config = [] ↔ Satisfies true schema.fields (.obj config.fields)) ∧
    (validateNodeConfig schema config = [] → ∀ config' : JsonMap,
      Replaces (BranchOf schema.fields) (.obj config.fields) (.obj config'.fields) →
        validateNodeConfig schema config' = []) := by
  refine ⟨validateNodeConfig_iff hvocab config, fun hok config' hreplaces => ?_⟩
  rw [validateNodeConfig_iff hvocab] at hok ⊢
  exact satisfies_replaces schema.fields (fun b hb => hb) hok hreplaces

/-- An enum with an object. -/
def pointSchema : JsonMap where
  fields := [("properties", .obj [("a", .obj [("enum", .arr [.obj [("x", .num 1)]])])])]
  distinct := by decide

/-- The object of the enum. -/
def pointConfig : JsonMap where
  fields := [("a", .obj [("x", .num 1)])]
  distinct := by decide

/-- The object with an expression in it. -/
def pointExpression : JsonMap where
  fields := [("a", .obj [("x", .str "\x7b\x7b e \x7d\x7d")])]
  distinct := by decide

private theorem validate_pointConfig : validateNodeConfig pointSchema pointConfig = [] := by
  simp [validateNodeConfig, pointSchema, pointConfig, validateValue, validateFields, enumError, typeError, propsOf,
    isStrict, requiredErrors, typeAllows, isExpression, looseEqual, Json.deepEqual, Json.deepEqualFields,
      List.lookup_cons]

/-- An expression inside the object of an enum is rejected. -/
theorem enum_rejects_expression :
    ¬∀ schema config config' : JsonMap, checkSchemaVocabulary schema = [] → validateNodeConfig schema config = [] →
      Replaces (fun _ => False) (.obj config.fields) (.obj config'.fields) →
        validateNodeConfig schema config' = [] := by
  intro h
  have hreplaces : Replaces (fun _ => False) (.obj pointConfig.fields) (.obj pointExpression.fields) := by
    refine @Replaces.field _ [] [] _ _ _ (fun _ => False.elim) (@Replaces.field _ [] [] _ _ _ ?_ (.here (by decide)))
    rintro schema ⟨root, -, -, hroot, -⟩
    exact hroot.elim
  have hok := h pointSchema pointConfig pointExpression (by decide) validate_pointConfig hreplaces
  simp [validateNodeConfig, pointSchema, pointExpression, validateValue, validateFields, enumError, typeError, propsOf,
    requiredErrors, typeAllows, isExpression, looseEqual, Json.deepEqual, Json.deepEqualFields, List.lookup_cons] at hok

/-- An expression in the place of the object. -/
def wholeExpression : JsonMap where
  fields := [("a", .str "\x7b\x7b e \x7d\x7d")]
  distinct := by decide

theorem validateNodeConfig_wholeExpression :
    checkSchemaVocabulary pointSchema = [] ∧ validateNodeConfig pointSchema wholeExpression = [] := by
  refine ⟨by decide, (validateNodeConfig_spec pointSchema (by decide) pointConfig).2 validate_pointConfig _ ?_⟩
  refine @Replaces.field _ [] [] _ _ _ (fun schema hschema => ?_) (.here (by decide))
  rintro ⟨members, member, hmembers, -⟩
  cases hschema with
  | refl => simp [pointSchema, List.lookup_cons] at hmembers
  | oneOf hone => simp [pointSchema, List.lookup_cons] at hone

end Noda.Registry
