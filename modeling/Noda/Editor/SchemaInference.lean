import Noda.Lib.Assoc
import Noda.Lib.Json

/-!
# Learned schemas

`lib/schemaInference.ts`: the schema of a value (`inferSchema`) and the merge of a schema with the schema of a further
value (`mergeSchemas`), with the values that a schema accepts (`accepts`).

An object `properties` is filled by assignments.  A schema that is assigned to `__proto__` becomes the prototype of the
object instead of a property, and reading a name that is no property of the object yields what it inherits under that
name: a member of such a prototype or of `Object.prototype`.  That is a function or a part of another schema, not the
schema of a value that was observed under the name.  The code goes on with it as if it were one, mostly as with a
variant that has no type; `mergeSchemas` has no value there (`none`), so that nothing counts as learned.
-/

namespace Noda.Editor

/-- The types of values with no parts. -/
inductive Primitive where
  | null
  | boolean
  | number
  | string
  deriving DecidableEq, Repr

inductive SchemaType where
  | primitive (p : Primitive)
  | array
  | object
  deriving DecidableEq, Repr

def typeOf : Json → SchemaType
  | .null => .primitive .null
  | .bool _ => .primitive .boolean
  | .num _ => .primitive .number
  | .str _ => .primitive .string
  | .arr _ => .array
  | .obj _ => .object

/-- The schemas that `inferSchema` and `mergeSchemas` make.  `inherited` are the names that the object `properties`
inherits from another prototype than `Object.prototype`. -/
inductive JSONSchema where
  | primitive (p : Primitive)
  | array (items : Option JSONSchema)
  | object (properties : List (String × JSONSchema)) (inherited : List String) (required : Option (List String))
  | anyOf (variants : List JSONSchema)

namespace JSONSchema

/-- The field `type`. -/
def type : JSONSchema → Option SchemaType
  | .primitive p => some (.primitive p)
  | .array _ => some .array
  | .object .. => some .object
  | .anyOf _ => none

/-- The names of the fields. -/
def names : JSONSchema → List String
  | .primitive _ => ["type"]
  | .array items => "type" :: (items.map fun _ => "items").toList
  | .object _ _ required => ["type", "properties"] ++ (required.map fun _ => "required").toList
  | .anyOf _ => ["anyOf"]

/-- `schema.anyOf ?? [schema]`. -/
def variants : JSONSchema → List JSONSchema
  | .anyOf variants => variants
  | schema => [schema]

end JSONSchema

/-! ### The schema of a value -/

mutual

def inferSchema : Json → JSONSchema
  | .null => .primitive .null
  | .bool _ => .primitive .boolean
  | .num _ => .primitive .number
  | .str _ => .primitive .string
  | .arr [] => .array none
  | .arr (item :: _) => .array (some (inferSchema item))
  | .obj fields =>
    .object (Assoc.remove "__proto__" (inferFields fields))
      (((inferFields fields).lookup "__proto__").elim [] JSONSchema.names) (some (fields.map Prod.fst))

/-- The schemas of the fields; an object has no field twice. -/
def inferFields : List (String × Json) → List (String × JSONSchema)
  | [] => []
  | (key, value) :: fields => (key, inferSchema value) :: Assoc.remove key (inferFields fields)

end

/-! ### Merging -/

/-- What every object inherits. -/
def objectPrototype : List String :=
  ["constructor", "toString", "toLocaleString", "valueOf", "hasOwnProperty", "isPrototypeOf", "propertyIsEnumerable",
    "__defineGetter__", "__defineSetter__", "__lookupGetter__", "__lookupSetter__", "__proto__"]

/-- `properties[key]`, where `undefined` is `some none`, and `none` is something inherited. -/
def readProperty (properties : List (String × JSONSchema)) (inherited : List String) (key : String) :
    Option (Option JSONSchema) :=
  match properties.lookup key with
  | some schema => some (some schema)
  | none => if key ∈ inherited ∨ key ∈ objectPrototype then none else some none

/-- The first schema of each type. -/
def distinctTypes (schemas : List JSONSchema) : List JSONSchema :=
  schemas.foldl (fun merged v => if v.type ∈ merged.map JSONSchema.type then merged else merged ++ [v]) []

/-- The merge of schemas of different types. -/
def unite (existing incoming : JSONSchema) : JSONSchema :=
  match distinctTypes (existing.variants ++ incoming.variants) with
  | [merged] => merged
  | merged => .anyOf merged

/-- The names that are required by both. -/
def mergeRequired (existing incoming : Option (List String)) : Option (List String) :=
  let required := (existing.getD []).filter (· ∈ incoming.getD [])
  if required = [] then none else some required

/-- The properties that only the incoming schema has. -/
def addedProperties (existing : List (String × JSONSchema)) (inherited : List String) :
    List (String × JSONSchema) → Option (List (String × JSONSchema))
  | [] => some []
  | (key, incoming) :: fields => do
    let schema ← readProperty existing inherited key
    let fields ← addedProperties existing inherited fields
    return if schema.isSome then fields else (key, incoming) :: fields

mutual

def mergeSchemas : JSONSchema → JSONSchema → Option JSONSchema
  | .anyOf existing, .anyOf incoming => some (.anyOf (distinctTypes (existing ++ incoming)))
  | .object existing inherited required, .object incoming inherited' required' => do
    let properties ← mergeProperties existing incoming inherited'
    let added ← addedProperties existing inherited incoming
    return .object (properties ++ added) [] (mergeRequired required required')
  | .array (some existing), .array (some incoming) => do
    let items ← mergeSchemas existing incoming
    return .array (some items)
  | .array existing, .array incoming => some (.array (existing.or incoming))
  | existing, incoming => some (if existing.type ≠ incoming.type then unite existing incoming else incoming)

/-- The properties of the existing schema, merged with those of the incoming one. -/
def mergeProperties : List (String × JSONSchema) → List (String × JSONSchema) → List String →
    Option (List (String × JSONSchema))
  | [], _, _ => some []
  | (key, existing) :: fields, incoming, inherited => do
    let schema ← readProperty incoming inherited key
    let merged ← match schema with
      | some schema => mergeSchemas existing schema
      | none => some existing
    let fields ← mergeProperties fields incoming inherited
    return (key, merged) :: fields

end

/-- The schema of the values: that of the first one, merged with that of each later one. -/
def learnSchema : List Json → Option JSONSchema
  | [] => none
  | value :: values => values.foldlM (fun schema value => mergeSchemas schema (inferSchema value)) (inferSchema value)

/-! ### The values that a schema accepts -/

mutual

def accepts : JSONSchema → Json → Bool
  | .primitive p, value => typeOf value = .primitive p
  | .array none, value => typeOf value = .array
  | .array (some schema), .arr items => items.all fun item => accepts schema item
  | .array (some _), _ => false
  | .object properties _ required, .obj fields =>
    (required.getD []).all (· ∈ fields.map Prod.fst) && acceptsProperties properties fields
  | .object .., _ => false
  | .anyOf variants, value => acceptsAny variants value

def acceptsProperties : List (String × JSONSchema) → List (String × Json) → Bool
  | [], _ => true
  | (key, schema) :: properties, fields =>
    (fields.lookup key).all (fun value => accepts schema value) && acceptsProperties properties fields

def acceptsAny : List JSONSchema → Json → Bool
  | [], _ => false
  | schema :: schemas, value => accepts schema value || acceptsAny schemas value

end

section Accepts

variable {fields : List (String × Json)} {properties : List (String × JSONSchema)} {schemas : List JSONSchema}
  {schema : JSONSchema} {value : Json}

theorem acceptsAny_iff : acceptsAny schemas value = true ↔ ∃ schema ∈ schemas, accepts schema value = true := by
  induction schemas with
  | nil => simp [acceptsAny]
  | cons schema schemas ih => simp [acceptsAny, ih]

theorem acceptsProperties_iff (hnodup : (properties.map Prod.fst).Nodup) :
    acceptsProperties properties fields = true ↔ ∀ key schema value, properties.lookup key = some schema →
      fields.lookup key = some value → accepts schema value = true := by
  have hmem : acceptsProperties properties fields = true ↔ ∀ e ∈ properties, ∀ value, fields.lookup e.1 = some value →
      accepts e.2 value = true := by
    clear hnodup
    induction properties with
    | nil => simp [acceptsProperties]
    | cons e properties ih =>
      obtain ⟨key, schema⟩ := e
      rw [acceptsProperties, Bool.and_eq_true, ih, List.forall_mem_cons, Option.all_eq_true]
  rw [hmem]
  constructor
  · intro h key schema value hschema hvalue
    exact h (key, schema) (Assoc.mem_of_lookup hschema) value hvalue
  · intro h e he value hvalue
    exact h e.1 e.2 value ((Assoc.lookup_eq_some hnodup).2 he) hvalue

theorem type_of_accepts {type : SchemaType} (htype : schema.type = some type) (h : accepts schema value = true) :
    typeOf value = type := by
  cases schema with
  | primitive p =>
    obtain rfl := Option.some.inj htype
    simpa [accepts] using h
  | array items =>
    obtain rfl := Option.some.inj htype
    cases items with
    | none => simpa [accepts] using h
    | some schema =>
      cases value with
      | arr items => rfl
      | _ => simp [accepts] at h
  | object properties inherited required =>
    obtain rfl := Option.some.inj htype
    cases value with
    | obj fields => rfl
    | _ => simp [accepts] at h
  | anyOf variants => cases htype

end Accepts

/-! ### The schema of a value -/

theorem type_inferSchema (value : Json) : (inferSchema value).type = some (typeOf value) := by
  cases value with
  | arr items =>
    cases items with
    | nil => simp [inferSchema, JSONSchema.type, typeOf]
    | cons item items => simp [inferSchema, JSONSchema.type, typeOf]
  | _ => simp [inferSchema, JSONSchema.type, typeOf]

private theorem lookup_inferFields (fields : List (String × Json)) (key : String) :
    (inferFields fields).lookup key = (fields.lookup key).map inferSchema := by
  induction fields with
  | nil => simp [inferFields]
  | cons e fields ih =>
    obtain ⟨key', value⟩ := e
    rw [inferFields]
    by_cases heq : key = key'
    · subst heq
      simp
    · rw [List.lookup_cons, List.lookup_cons, beq_eq_false_iff_ne.2 heq, Assoc.lookup_remove_of_ne heq, ih]

private theorem nodup_inferFields (fields : List (String × Json)) : ((inferFields fields).map Prod.fst).Nodup := by
  induction fields with
  | nil => simp [inferFields]
  | cons e fields ih =>
    obtain ⟨key, value⟩ := e
    rw [inferFields, List.map_cons, List.nodup_cons]
    refine ⟨?_, Assoc.nodup_remove ih⟩
    intro hmem
    obtain ⟨e, he, hkey⟩ := List.mem_map.1 hmem
    exact (Assoc.mem_remove.1 he).2 hkey

/-- The property that `inferSchema` finds in a value; `__proto__` is none. -/
def ownProperty (key : String) (value : Json) : Option Json := if key = "__proto__" then none else value.field key

/-- The names of the fields of the schema of a value. -/
def schemaNames : Json → List String
  | .arr (_ :: _) => ["type", "items"]
  | .obj _ => ["type", "properties", "required"]
  | _ => ["type"]

private theorem names_inferSchema (value : Json) : (inferSchema value).names = schemaNames value := by
  cases value with
  | arr items => cases items <;> simp [inferSchema, JSONSchema.names, schemaNames]
  | _ => simp [inferSchema, JSONSchema.names, schemaNames]

/-- The names that the properties of the schema of an object inherit. -/
def inheritedNames (value : Json) : List String := (value.field "__proto__").elim [] schemaNames

theorem inferSchema_obj (fields : List (String × Json)) : ∃ properties,
    inferSchema (.obj fields) = .object properties (inheritedNames (.obj fields)) (some (fields.map Prod.fst)) ∧
    (properties.map Prod.fst).Nodup ∧
    ∀ key, properties.lookup key = (ownProperty key (.obj fields)).map inferSchema := by
  refine ⟨Assoc.remove "__proto__" (inferFields fields), ?_, Assoc.nodup_remove (nodup_inferFields fields), ?_⟩
  · have hinherited : ((inferFields fields).lookup "__proto__").elim [] JSONSchema.names =
        inheritedNames (.obj fields) := by
      rw [lookup_inferFields, inheritedNames, Json.field_obj]
      cases fields.lookup "__proto__" with
      | none => rfl
      | some value => exact names_inferSchema value
    rw [inferSchema, hinherited]
  · intro key
    by_cases hproto : key = "__proto__"
    · subst hproto
      rw [Assoc.lookup_remove_self]
      rfl
    · rw [Assoc.lookup_remove_of_ne hproto, lookup_inferFields, ownProperty, if_neg hproto]
      rfl

/-! ### Merging properties -/

section Merge

variable {existing incoming : List (String × JSONSchema)} {inherited inherited' : List String} {key : String}

def Inherits (properties : List (String × JSONSchema)) (inherited : List String) (key : String) : Prop :=
  properties.lookup key = none ∧ (key ∈ inherited ∨ key ∈ objectPrototype)

private theorem readProperty_eq_none (h : Inherits existing inherited key) :
    readProperty existing inherited key = none := by
  rw [readProperty, h.1]
  exact if_pos h.2

private theorem readProperty_eq_some (h : ¬Inherits existing inherited key) :
    readProperty existing inherited key = some (existing.lookup key) := by
  unfold readProperty
  split
  · rename_i schema hschema
    rw [hschema]
  · rename_i hnone
    rw [if_neg (fun hinherits => h ⟨hnone, hinherits⟩), hnone]

private theorem addedProperties_eq_some (h : ∀ e ∈ incoming, ¬Inherits existing inherited e.1) :
    addedProperties existing inherited incoming = some (incoming.filter fun e => (existing.lookup e.1).isNone) := by
  induction incoming with
  | nil => rfl
  | cons e incoming ih =>
    obtain ⟨key, schema⟩ := e
    obtain ⟨hkey, hrest⟩ := List.forall_mem_cons.1 h
    rw [addedProperties, readProperty_eq_some hkey, ih hrest, List.filter_cons]
    cases hlookup : existing.lookup key with
    | none => simp
    | some schema => simp

private theorem addedProperties_eq_none {e : String × JSONSchema} (he : e ∈ incoming)
    (h : Inherits existing inherited e.1) :
    addedProperties existing inherited incoming = none := by
  induction incoming with
  | nil => cases he
  | cons e' incoming ih =>
    obtain ⟨key', schema'⟩ := e'
    rw [addedProperties]
    rcases List.mem_cons.1 he with rfl | he
    · rw [readProperty_eq_none h]
      rfl
    · rw [ih he]
      cases readProperty existing inherited key' with
      | none => rfl
      | some schema => rfl

def mergeProperty (incoming : List (String × JSONSchema)) (inherited : List String) (key : String)
    (schema : JSONSchema) : Option JSONSchema :=
  (readProperty incoming inherited key).bind fun
    | some schema' => mergeSchemas schema schema'
    | none => some schema

private theorem mergeProperties_cons (key : String) (schema : JSONSchema) :
    mergeProperties ((key, schema) :: existing) incoming inherited =
      (mergeProperty incoming inherited key schema).bind fun merged =>
        (mergeProperties existing incoming inherited).map ((key, merged) :: ·) := by
  rw [mergeProperties, mergeProperty]
  cases readProperty incoming inherited key with
  | none => rfl
  | some schema' =>
    cases schema' with
    | none => cases mergeProperties existing incoming inherited <;> rfl
    | some schema' =>
      simp only [Option.bind_eq_bind, Option.bind_some]
      cases mergeSchemas schema schema' with
      | none => rfl
      | some merged => cases mergeProperties existing incoming inherited <;> rfl

private theorem mergeProperties_eq_some (h : ∀ e ∈ existing, mergeProperty incoming inherited e.1 e.2 ≠ none) :
    ∃ merged, mergeProperties existing incoming inherited = some merged ∧
      merged.map Prod.fst = existing.map Prod.fst ∧
      ∀ key, merged.lookup key =
        (existing.lookup key).bind fun schema => mergeProperty incoming inherited key schema := by
  induction existing with
  | nil => exact ⟨[], by simp [mergeProperties], rfl, fun key => rfl⟩
  | cons e existing ih =>
    obtain ⟨key, schema⟩ := e
    obtain ⟨hkey, hrest⟩ := List.forall_mem_cons.1 h
    obtain ⟨first, hfirst⟩ := Option.ne_none_iff_exists'.1 hkey
    obtain ⟨merged, hmerged, hkeys, hlookup⟩ := ih hrest
    refine ⟨(key, first) :: merged, ?_, ?_, ?_⟩
    · rw [mergeProperties_cons, hfirst, hmerged]
      rfl
    · rw [List.map_cons, List.map_cons, hkeys]
    · intro key'
      by_cases heq : key' = key
      · subst heq
        rw [List.lookup_cons_self, List.lookup_cons_self]
        exact hfirst.symm
      · rw [List.lookup_cons, List.lookup_cons, beq_eq_false_iff_ne.2 heq]
        exact hlookup key'

private theorem mergeProperties_eq_none {e : String × JSONSchema} (he : e ∈ existing)
    (h : mergeProperty incoming inherited e.1 e.2 = none) : mergeProperties existing incoming inherited = none := by
  induction existing with
  | nil => cases he
  | cons e' existing ih =>
    obtain ⟨key', schema'⟩ := e'
    rw [mergeProperties_cons]
    rcases List.mem_cons.1 he with rfl | he
    · rw [h]
      rfl
    · rw [ih he]
      cases mergeProperty incoming inherited key' schema' with
      | none => rfl
      | some merged => rfl

/-- Nothing inherited is read, and the properties of both schemas can be merged. -/
structure Mergeable (existing : List (String × JSONSchema)) (inherited : List String)
    (incoming : List (String × JSONSchema)) (inherited' : List String) : Prop where
  left : ∀ key, existing.lookup key ≠ none → ¬Inherits incoming inherited' key
  right : ∀ key, incoming.lookup key ≠ none → ¬Inherits existing inherited key
  both : ∀ key schema schema', existing.lookup key = some schema → incoming.lookup key = some schema' →
    mergeSchemas schema schema' ≠ none

theorem lookup_ne_none {e : String × JSONSchema} (he : e ∈ existing) : existing.lookup e.1 ≠ none := by
  intro hnone
  exact Assoc.lookup_eq_none.1 hnone e.2 he

private theorem mergeProperty_eq (h : ¬Inherits incoming inherited key) (schema : JSONSchema) :
    mergeProperty incoming inherited key schema =
      (incoming.lookup key).elim (some schema) fun schema' => mergeSchemas schema schema' := by
  rw [mergeProperty, readProperty_eq_some h, Option.bind_some]
  cases incoming.lookup key with
  | none => rfl
  | some schema' => rfl

theorem mergeSchemas_object (hnodup : (existing.map Prod.fst).Nodup) (hnodup' : (incoming.map Prod.fst).Nodup)
    (h : Mergeable existing inherited incoming inherited') (required required' : Option (List String)) :
    ∃ merged, mergeSchemas (.object existing inherited required) (.object incoming inherited' required') =
        some (.object merged [] (mergeRequired required required')) ∧
      (merged.map Prod.fst).Nodup ∧
      ∀ key, merged.lookup key = (existing.lookup key).elim (incoming.lookup key) fun schema =>
        (incoming.lookup key).elim (some schema) fun schema' => mergeSchemas schema schema' := by
  have hproperties : ∀ e ∈ existing, mergeProperty incoming inherited' e.1 e.2 ≠ none := by
    intro e he
    rw [mergeProperty_eq (h.left e.1 (lookup_ne_none he))]
    cases hlookup : incoming.lookup e.1 with
    | none => exact Option.some_ne_none _
    | some schema' => exact h.both e.1 e.2 schema' ((Assoc.lookup_eq_some hnodup).2 he) hlookup
  obtain ⟨properties, hmerged, hkeys, hlookup⟩ := mergeProperties_eq_some hproperties
  have hadded : addedProperties existing inherited incoming = _ :=
    addedProperties_eq_some fun e he => h.right e.1 (lookup_ne_none he)
  refine ⟨properties ++ incoming.filter fun e => (existing.lookup e.1).isNone, ?_, ?_, fun key => ?_⟩
  · rw [mergeSchemas, hmerged, hadded]
    rfl
  · rw [List.map_append, List.nodup_append, hkeys]
    refine ⟨hnodup, hnodup'.sublist (List.filter_sublist.map _), ?_⟩
    intro key hkey key' hkey' heq
    subst heq
    obtain ⟨e, he, rfl⟩ := List.mem_map.1 hkey
    obtain ⟨e', he', heq⟩ := List.mem_map.1 hkey'
    have hnone := (List.mem_filter.1 he').2
    rw [heq, Option.isNone_iff_eq_none] at hnone
    exact lookup_ne_none he hnone
  · rw [List.lookup_append, hlookup, Assoc.lookup_filter fun key => (existing.lookup key).isNone]
    cases hexisting : existing.lookup key with
    | none => simp
    | some schema =>
      have hown := h.left key (by rw [hexisting]; exact Option.some_ne_none _)
      rw [Option.bind_some, mergeProperty_eq hown]
      simp

theorem mergeSchemas_object_eq_none (h : ¬Mergeable existing inherited incoming inherited')
    (required required' : Option (List String)) :
    mergeSchemas (.object existing inherited required) (.object incoming inherited' required') = none := by
  have hsplit : mergeProperties existing incoming inherited' = none ∨
      addedProperties existing inherited incoming = none := by
    by_contra hnone
    rw [not_or] at hnone
    refine h ⟨fun key hkey hinherits => ?_, fun key hkey hinherits => ?_, fun key schema schema' hs hs' hmerge => ?_⟩
    · obtain ⟨schema, hschema⟩ := Option.ne_none_iff_exists'.1 hkey
      refine hnone.1 (mergeProperties_eq_none (Assoc.mem_of_lookup hschema) ?_)
      rw [mergeProperty, readProperty_eq_none hinherits]
      rfl
    · obtain ⟨schema, hschema⟩ := Option.ne_none_iff_exists'.1 hkey
      exact hnone.2 (addedProperties_eq_none (Assoc.mem_of_lookup hschema) hinherits)
    · refine hnone.1 (mergeProperties_eq_none (Assoc.mem_of_lookup hs) ?_)
      have hown : ¬Inherits incoming inherited' key := fun hinherits => nomatch hs'.symm.trans hinherits.1
      rw [mergeProperty_eq hown, hs']
      exact hmerge
  rw [mergeSchemas]
  rcases hsplit with hnone | hnone
  · rw [hnone]
    rfl
  · rw [hnone]
    cases mergeProperties existing incoming inherited' with
    | none => rfl
    | some properties => rfl

end Merge

end Noda.Editor
