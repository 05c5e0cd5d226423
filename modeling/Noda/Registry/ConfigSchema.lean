import Mathlib.Data.List.Infix
import Noda.Lib.GoMap
import Noda.Lib.JsonMap
import Noda.Lib.Strconv

/-!
# Node configs and their schemas

`ValidateNodeConfig` walks through a node's config along its schema.  A string with two opening braces is an expression,
whose value is not known, and passes every check.  `CheckSchemaVocabulary` keeps the schemas to the keywords that the
walker knows.
-/

namespace Noda.Registry

open Json (Fields)

/-! ### Texts -/

/-- `%v`. -/
def formatValue (v : Json) : String := v.sprint toString

/-- `%T`. -/
def formatType : Json → String
  | .null => "<nil>"
  | .bool _ => "bool"
  | .num _ => "int"
  | .str _ => "string"
  | .arr _ => "[]interface \x7b\x7d"
  | .obj _ => "map[string]interface \x7b\x7d"

def joinPath (path name : String) : String := if path = "" then name else path ++ "." ++ name

def atPath (path : String) : String := if path = "" then "" else " (in " ++ path.goQuote ++ ")"

def indexPath (path : String) (i : Nat) : String := path ++ "[" ++ toString i ++ "]"

/-! ### The vocabulary -/

def annotationKeywords : List String := ["$schema", "title", "description", "default", "examples", "deprecated"]

def knownTypeNames : List String := ["object", "array", "string", "boolean", "null", "number", "integer"]

/-- `schema keyword "k" at "path"`, and what is wrong with it. -/
def keywordError (path k problem : String) : String :=
  "schema keyword " ++ k.goQuote ++ " at " ++ path.goQuote ++ problem

def mustBe (path k shape : String) (v : Json) : String :=
  keywordError path k (" must be " ++ shape ++ ", got " ++ formatType v)

/-- The values of `required`. -/
def checkRequired (path : String) : Nat → List Json → List String
  | _, [] => []
  | i, .str _ :: arr => checkRequired path (i + 1) arr
  | i, r :: arr =>
    keywordError path "required" (": element " ++ toString i ++ " must be a string, got " ++ formatType r) ::
      checkRequired path (i + 1) arr

def checkTypeName (path name : String) : List String :=
  if name ∈ knownTypeNames then [] else [keywordError path "type" (": unknown type " ++ name.goQuote)]

def checkTypeNames (path : String) : Nat → List Json → List String
  | _, [] => []
  | i, .str name :: t => checkTypeName path name ++ checkTypeNames path (i + 1) t
  | i, one :: t =>
    keywordError path "type" (": element " ++ toString i ++ " must be a string, got " ++ formatType one) ::
      checkTypeNames path (i + 1) t

/-- The keywords without schemas in them, and those that have a wrong shape or are not known. -/
def checkPlain (path k : String) (v : Json) : List String :=
  if k = "properties" ∨ k = "items" then [mustBe path k "map[string]any" v]
  else if k = "oneOf" then [mustBe path k "[]any" v]
  else if k = "required" then
    match v with
    | .arr arr => checkRequired path 0 arr
    | _ => [mustBe path k "[]any" v]
  else if k = "enum" then
    match v with
    | .arr _ => []
    | _ => [mustBe path k "[]any" v]
  else if k = "type" then
    match v with
    | .str t => checkTypeName path t
    | .arr t => checkTypeNames path 0 t
    | _ => [mustBe path k "string or []any" v]
  else if k = "additionalProperties" then
    match v with
    | .bool _ => []
    | _ => [mustBe path k "bool" v]
  else [keywordError path k " is not supported by node config validation"]

/-- The keywords beside `oneOf`, which would be dropped. -/
def siblingErrors (path : String) (schema : Fields) : List String :=
  if (schema.lookup "oneOf").isSome then
    (schema.filter fun e => e.1 ≠ "oneOf" ∧ e.1 ∉ annotationKeywords).map fun e =>
      keywordError path e.1 (" is a sibling of \"oneOf\" and would be silently dropped by validateValue; " ++
        "move it inside each oneOf branch instead")
  else []

mutual

/-- The loop of `checkVocab` over the keywords of a schema. -/
def checkKeywords (path : String) : Fields → List String
  | [] => []
  | (k, v) :: schema => checkKeyword path k v ++ checkKeywords path schema

def checkKeyword (path k : String) : Json → List String
  | .obj sub =>
    if k ∈ annotationKeywords then []
    else if k = "properties" then checkProperties path sub
    else if k = "items" then checkKeywords (path ++ "[]") sub ++ siblingErrors (path ++ "[]") sub
    else checkPlain path k (.obj sub)
  | .arr branches =>
    if k ∈ annotationKeywords then []
    else if k = "oneOf" then checkBranches path 0 branches
    else checkPlain path k (.arr branches)
  | v => if k ∈ annotationKeywords then [] else checkPlain path k v

def checkProperties (path : String) : Fields → List String
  | [] => []
  | (name, .obj sub) :: props =>
    checkKeywords (joinPath path name) sub ++ siblingErrors (joinPath path name) sub ++ checkProperties path props
  | (name, sub) :: props =>
    keywordError path "properties" (": field " ++ name.goQuote ++ " must be map[string]any, got " ++ formatType sub) ::
      checkProperties path props

def checkBranches (path : String) : Nat → List Json → List String
  | _, [] => []
  | i, .obj sub :: branches =>
    let branch := path ++ "(oneOf " ++ toString i ++ ")"
    checkKeywords branch sub ++ siblingErrors branch sub ++ checkBranches path (i + 1) branches
  | i, b :: branches =>
    keywordError path "oneOf" (": branch " ++ toString i ++ " must be map[string]any, got " ++ formatType b) ::
      checkBranches path (i + 1) branches

end

def checkVocab (path : String) (schema : Fields) : List String := checkKeywords path schema ++ siblingErrors path schema

def checkSchemaVocabulary (schema : JsonMap) : List String := checkVocab "" schema.fields

/-! ### The walker -/

/-- `strings.Contains` for two opening braces. -/
def isExpression : Json → Bool
  | .str s => "\x7b\x7b".toList <:+: s.toList
  | _ => false

def matchesType (v : Json) (t : String) : Bool :=
  match t, v with
  | "object", .obj _ | "array", .arr _ | "string", .str _ | "boolean", .bool _ | "null", .null => true
  | "number", .num _ => true
  | "integer", .num n => n.isInt
  | _, _ => false

def typeAllows (declared : Option Json) (value : Json) : Bool :=
  match declared with
  | some (.str t) => matchesType value t
  | some (.arr t) => t.any fun one =>
    match one with
    | .str s => matchesType value s
    | _ => false
  | _ => true

def looseEqual : Json → Json → Bool
  | .num a, .num b => a = b
  | .num _, _ => false
  | a, b => Json.deepEqual a b

def typeNames (declared : Option Json) : String :=
  match declared with
  | some (.str t) => t
  | some (.arr t) => " or ".intercalate (t.filterMap Json.asStr)
  | _ => "value"

def goTypeName : Json → String
  | .null => "null"
  | .obj _ => "object"
  | .arr _ => "array"
  | .str _ => "string"
  | .bool _ => "boolean"
  | .num _ => "number"

def requiredErrors (schema : Fields) (path : String) (obj : Fields) : List String :=
  match schema.lookup "required" with
  | some (.arr req) => (req.filterMap Json.asStr).filterMap fun name =>
    if (obj.lookup name).isSome then none else some ("missing required config field " ++ name.goQuote ++ atPath path)
  | _ => []

/-- `schema["properties"].(map[string]any)`. -/
def propsOf (schema : Fields) : Option Fields :=
  match schema.lookup "properties" with
  | some (.obj props) => some props
  | _ => none

/-- Fields that are not declared are errors. -/
def isStrict (schema : Fields) (path : String) (rootStrict : Bool) : Bool :=
  match schema.lookup "additionalProperties" with
  | some (.bool ap) => !ap
  | _ => rootStrict && path = "" && (propsOf schema).isSome

def enumError (schema : Fields) (value : Json) (path : String) : Option String :=
  match schema.lookup "enum" with
  | some (.arr enum) =>
    if enum.any (looseEqual value) then none
    else some ("config field " ++ path.goQuote ++ ": value " ++ formatValue value ++ " not in allowed values " ++
      formatValue (.arr enum))
  | _ => none

def typeError (schema : Fields) (value : Json) (path : String) : Option String :=
  if typeAllows (schema.lookup "type") value then none
  else some ("config field " ++ path.goQuote ++ ": expected " ++ typeNames (schema.lookup "type") ++ ", got " ++
    goTypeName value)

private theorem sizeOf_lookup_lt {fields : Fields} {key : String} {v : Json} (h : fields.lookup key = some v) :
    sizeOf v < sizeOf fields := by
  have hlt := List.sizeOf_lt_of_mem (Assoc.mem_of_lookup h)
  rw [Prod.mk.sizeOf_spec] at hlt
  omega

theorem sizeOf_sub_lt {fields sub : Fields} {key : String} (h : fields.lookup key = some (.obj sub)) :
    sizeOf sub < sizeOf fields := by
  have hlt := sizeOf_lookup_lt h
  rw [Json.obj.sizeOf_spec] at hlt
  omega

theorem sizeOf_branches_lt {fields : Fields} {branches : List Json} {key : String}
    (h : fields.lookup key = some (.arr branches)) : sizeOf branches < sizeOf fields := by
  have hlt := sizeOf_lookup_lt h
  rw [Json.arr.sizeOf_spec] at hlt
  omega

theorem sizeOf_branch_lt {fields sub : Fields} {branches : List Json} {key : String}
    (h : fields.lookup key = some (.arr branches)) (hsub : .obj sub ∈ branches) : sizeOf sub < sizeOf fields := by
  have hlt := List.sizeOf_lt_of_mem hsub
  have hlt' := sizeOf_branches_lt h
  rw [Json.obj.sizeOf_spec] at hlt
  omega

private theorem sizeOf_propsOf (schema : Fields) : sizeOf ((propsOf schema).getD []) ≤ sizeOf schema := by
  unfold propsOf
  split
  · rename_i props hprops
    exact (sizeOf_sub_lt hprops).le
  · cases schema with
    | nil => exact le_refl _
    | cons e schema =>
      simp only [Option.getD_none, List.nil.sizeOf_spec, List.cons.sizeOf_spec]
      omega

/-- A smaller value with a schema that is not larger. -/
private theorem lex_of_le {a a' b b' : Nat} (h : a ≤ a') (h' : b < b') : Prod.Lex (· < ·) (· < ·) (a, b) (a', b') := by
  rcases Nat.lt_or_eq_of_le h with h | rfl
  · exact .left _ _ h
  · exact .right _ h'

mutual

/-- `validateValue`: the errors about a value. -/
def validateValue (schema : Fields) (value : Json) (path : String) (rootStrict : Bool) : List String :=
  if isExpression value then []
  else
    match hone : schema.lookup "oneOf" with
    | some (.arr branches) =>
      have := sizeOf_branches_lt hone
      validateBranches branches value path rootStrict []
    | _ =>
      match enumError schema value path, typeError schema value path with
      | some err, _ => [err]
      | none, some err => [err]
      | none, none =>
        match value with
        | .obj obj =>
          requiredErrors schema path obj ++
            validateFields ((propsOf schema).getD []) (isStrict schema path rootStrict) path obj
        | .arr arr =>
          match hitems : schema.lookup "items" with
          | some (.obj items) =>
            have := sizeOf_sub_lt hitems
            validateItems items path 0 arr
          | _ => []
        | _ => []
termination_by (sizeOf schema, sizeOf value + 2)
decreasing_by
  · exact .left _ _ this
  · refine lex_of_le (sizeOf_propsOf schema) ?_
    rw [Json.obj.sizeOf_spec]
    omega
  · exact .left _ _ this

/-- The loop over the branches of `oneOf`, with the errors of the closest branch so far. -/
def validateBranches (branches : List Json) (value : Json) (path : String) (rootStrict : Bool)
    (bestErrs : List String) : List String :=
  match branches with
  | [] =>
    match bestErrs with
    | err :: _ =>
      ["config" ++ atPath path ++ " does not match any allowed variant; closest variant: " ++ err]
    | [] => ["config" ++ atPath path ++ " does not match any allowed variant"]
  | .obj bm :: branches =>
    let branchErrs := validateValue bm value path rootStrict
    if branchErrs = [] then []
    else
      validateBranches branches value path rootStrict
        (if bestErrs = [] ∨ branchErrs.length < bestErrs.length then branchErrs else bestErrs)
  | _ :: branches => validateBranches branches value path rootStrict bestErrs
termination_by (sizeOf branches, 0)
decreasing_by
  all_goals
    refine .left _ _ ?_
    simp only [List.cons.sizeOf_spec, Json.obj.sizeOf_spec]
    omega

/-- The loop over the fields of an object. -/
def validateFields (props : Fields) (strict : Bool) (path : String) (obj : Fields) : List String :=
  match obj with
  | [] => []
  | (name, v) :: obj =>
    (match hsub : props.lookup name with
      | some (.obj sub) =>
        have := sizeOf_sub_lt hsub
        validateValue sub v (joinPath path name) false
      | _ => if strict then ["unknown config field " ++ name.goQuote ++ atPath path] else []) ++
      validateFields props strict path obj
termination_by (sizeOf props, sizeOf obj + 1)
decreasing_by
  · exact .left _ _ this
  · refine .right _ ?_
    rw [List.cons.sizeOf_spec]
    omega

/-- The loop over the items of an array. -/
def validateItems (items : Fields) (path : String) (i : Nat) (arr : List Json) : List String :=
  match arr with
  | [] => []
  | el :: arr => validateValue items el (indexPath path i) false ++ validateItems items path (i + 1) arr
termination_by (sizeOf items, sizeOf arr + 1)
decreasing_by
  · refine .right _ ?_
    have hpos : 0 < sizeOf arr := by
      cases arr with
      | nil => decide
      | cons v arr => rw [List.cons.sizeOf_spec]; omega
    rw [List.cons.sizeOf_spec]
    omega
  · refine .right _ ?_
    rw [List.cons.sizeOf_spec]
    omega

end

def validateNodeConfig (schema config : JsonMap) : List String :=
  validateValue schema.fields (.obj config.fields) "" true

/-! ### Equations -/

section

variable {schema : Fields} {value : Json} {path : String} {rootStrict : Bool}

theorem validateValue_expression (h : isExpression value = true) : validateValue schema value path rootStrict = [] := by
  unfold validateValue
  rw [if_pos h]

theorem validateValue_oneOf (h : isExpression value = false) {branches : List Json}
    (hone : schema.lookup "oneOf" = some (.arr branches)) :
    validateValue schema value path rootStrict = validateBranches branches value path rootStrict [] := by
  unfold validateValue
  rw [if_neg (by simp [h])]
  split
  · rename_i branches' hone'
    rw [hone] at hone'
    cases hone'
    rfl
  · rename_i hnot
    exact absurd hone (hnot branches)

/-- Without `oneOf` the other keywords count. -/
theorem validateValue_plain (h : isExpression value = false)
    (hone : ∀ branches, schema.lookup "oneOf" ≠ some (.arr branches)) :
    validateValue schema value path rootStrict = [] ↔
      enumError schema value path = none ∧ typeError schema value path = none ∧
      (∀ obj, value = .obj obj → requiredErrors schema path obj = [] ∧
        validateFields ((propsOf schema).getD []) (isStrict schema path rootStrict) path obj = []) ∧
      ∀ arr items, value = .arr arr → schema.lookup "items" = some (.obj items) →
        validateItems items path 0 arr = [] := by
  unfold validateValue
  rw [if_neg (by simp [h])]
  split
  · rename_i branches hone'
    exact absurd hone' (hone branches)
  · cases henum : enumError schema value path with
    | some err => simp
    | none =>
      cases htype : typeError schema value path with
      | some err => simp
      | none =>
        cases value with
        | obj obj => simp
        | arr arr =>
          dsimp only
          split
          · rename_i items hitems
            simp [hitems]
          · rename_i hnot
            have hnot : ∀ items, schema.lookup "items" ≠ some (.obj items) := hnot
            simp [hnot]
        | _ => simp

theorem validateBranches_eq_nil (branches : List Json) (bestErrs : List String) :
    validateBranches branches value path rootStrict bestErrs = [] ↔
      ∃ bm, .obj bm ∈ branches ∧ validateValue bm value path rootStrict = [] := by
  induction branches generalizing bestErrs with
  | nil =>
    cases bestErrs with
    | nil => simp [validateBranches]
    | cons err bestErrs => simp [validateBranches]
  | cons b branches ih =>
    cases b with
    | obj bm =>
      rw [validateBranches]
      split_ifs with herrs
      · exact iff_of_true rfl ⟨bm, List.mem_cons_self, herrs⟩
      all_goals
        rw [ih]
        constructor
        · rintro ⟨bm', hmem, hok⟩
          exact ⟨bm', List.mem_cons_of_mem _ hmem, hok⟩
        · rintro ⟨bm', hmem, hok⟩
          rcases List.mem_cons.1 hmem with heq | hmem
          · cases heq
            exact absurd hok herrs
          · exact ⟨bm', hmem, hok⟩
    | _ =>
      rw [validateBranches, ih]
      · simp
      · simp

theorem validateFields_eq_nil (props : Fields) (strict : Bool) (obj : Fields) :
    validateFields props strict path obj = [] ↔
      ∀ e ∈ obj, (∀ sub, props.lookup e.1 = some (.obj sub) → validateValue sub e.2 (joinPath path e.1) false = []) ∧
        (strict = true → ∃ sub, props.lookup e.1 = some (.obj sub)) := by
  induction obj with
  | nil => simp [validateFields]
  | cons e obj ih =>
    obtain ⟨name, v⟩ := e
    rw [validateFields, List.append_eq_nil_iff, ih, List.forall_mem_cons]
    refine and_congr_left fun _ => ?_
    split
    · rename_i sub hsub
      simp [hsub]
    · rename_i hnot
      have hnot : ∀ sub, props.lookup name ≠ some (.obj sub) := hnot
      cases strict with
      | false => simp [hnot]
      | true => simp [hnot]

theorem validateItems_eq_nil (items : Fields) (i : Nat) (arr : List Json) {P : Json → Prop}
    (h : ∀ el ∈ arr, ∀ path, validateValue items el path false = [] ↔ P el) :
    validateItems items path i arr = [] ↔ ∀ el ∈ arr, P el := by
  induction arr generalizing i with
  | nil => simp [validateItems]
  | cons el arr ih =>
    obtain ⟨hel, harr⟩ := List.forall_mem_cons.1 h
    rw [validateItems, List.append_eq_nil_iff, hel, ih (i + 1) harr, List.forall_mem_cons]

end

end Noda.Registry
