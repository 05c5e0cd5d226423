import Mathlib.Data.List.Induction
import Mathlib.Data.List.TakeWhile
import Noda.Editor.SchemaInference

/-!
# Learning schemas from several values

`mergeSchemas` keeps one schema for each type.  As long as all values have one type their schemas are merged; once the
type has changed a schema is added for each new type, and the values of a type that is known change nothing any more.
So the schema of a type is learned from the values of that type before the type changes, or from the first one
(`members`, `learned_of_learnSchema`).

For the values of one type the parts are learned on their own: the items of arrays from the first elements
(`learnSchema_array`), each property of objects from the objects that have it (`learnSchema_object`).  A merge fails
only where it reads a name that is inherited (`learnSchema_object_ne_none_iff`).
-/

namespace Noda.Editor

/-! ### Merging different types -/

section Types

variable {existing incoming schema : JSONSchema} {schemas : List JSONSchema} {type : SchemaType} {value : Json}

private theorem distinctTypes_concat (schemas : List JSONSchema) (schema : JSONSchema) :
    distinctTypes (schemas ++ [schema]) =
      if schema.type ∈ (distinctTypes schemas).map JSONSchema.type then distinctTypes schemas
      else distinctTypes schemas ++ [schema] := by
  unfold distinctTypes
  rw [List.foldl_append, List.foldl_cons, List.foldl_nil]

private theorem distinctTypes_of_nodup (h : (schemas.map JSONSchema.type).Nodup) : distinctTypes schemas = schemas := by
  induction schemas using List.reverseRecOn with
  | nil => rfl
  | append_singleton schemas schema ih =>
    rw [List.map_append, List.nodup_append] at h
    have hnew : schema.type ∉ schemas.map JSONSchema.type := fun hmem => h.2.2 _ hmem _ (List.mem_singleton.2 rfl) rfl
    rw [distinctTypes_concat, ih h.1, if_neg hnew]

/-- A schema of one type, or of several variants of different types. -/
def JSONSchema.Proper : JSONSchema → Prop
  | .anyOf variants => 2 ≤ variants.length ∧ (variants.map JSONSchema.type).Nodup ∧ ∀ v ∈ variants, v.type ≠ none
  | _ => True

private theorem proper_of_type (h : schema.type = some type) : schema.Proper := by
  cases schema with
  | anyOf variants => cases h
  | _ => exact trivial

private theorem variants_of_type (h : schema.type = some type) : schema.variants = [schema] := by
  cases schema with
  | anyOf variants => cases h
  | _ => rfl

private theorem mergeSchemas_of_ne (h : existing.type ≠ incoming.type) :
    mergeSchemas existing incoming = some (unite existing incoming) := by
  cases existing with
  | primitive p => cases incoming <;> simp [mergeSchemas, h]
  | array items => cases incoming <;> simp_all [mergeSchemas, JSONSchema.type]
  | object properties inherited required => cases incoming <;> simp_all [mergeSchemas, JSONSchema.type]
  | anyOf variants => cases incoming <;> simp_all [mergeSchemas, JSONSchema.type]

private theorem unite_eq_anyOf (h : distinctTypes (existing.variants ++ incoming.variants) = schemas)
    (hlength : 2 ≤ schemas.length) : unite existing incoming = .anyOf schemas := by
  rw [unite, h]
  match schemas, hlength with
  | _ :: _ :: _, _ => rfl

/-- The type changes for the first time. -/
private theorem mergeSchemas_of_types {type' : SchemaType} (hexisting : existing.type = some type)
    (hincoming : incoming.type = some type') (hne : type ≠ type') :
    mergeSchemas existing incoming = some (.anyOf [existing, incoming]) := by
  have htypes : existing.type ≠ incoming.type := by
    rw [hexisting, hincoming]
    exact fun h => hne (Option.some.inj h)
  have hdistinct : distinctTypes (existing.variants ++ incoming.variants) = [existing, incoming] := by
    rw [variants_of_type hexisting, variants_of_type hincoming]
    exact distinctTypes_of_nodup (by simp [htypes])
  rw [mergeSchemas_of_ne htypes, unite_eq_anyOf hdistinct (Nat.le_refl 2)]

/-- The type has changed before: a variant is added for a new type, and nothing is done for a known one. -/
private theorem mergeSchemas_anyOf (hproper : (JSONSchema.anyOf schemas).Proper)
    (hincoming : incoming.type = some type) :
    mergeSchemas (.anyOf schemas) incoming =
      some (.anyOf (if some type ∈ schemas.map JSONSchema.type then schemas else schemas ++ [incoming])) := by
  obtain ⟨hlength, hnodup, -⟩ := hproper
  have htypes : (JSONSchema.anyOf schemas).type ≠ incoming.type := by
    rw [hincoming]
    exact nofun
  have hvariants : (JSONSchema.anyOf schemas).variants ++ incoming.variants = schemas ++ [incoming] := by
    rw [variants_of_type hincoming]
    rfl
  have hdistinct := distinctTypes_concat schemas incoming
  rw [distinctTypes_of_nodup hnodup, hincoming, ← hvariants] at hdistinct
  rw [mergeSchemas_of_ne htypes, unite_eq_anyOf hdistinct]
  · rw [hvariants]
  · split_ifs
    · exact hlength
    · rw [hvariants, List.length_append]
      omega

private theorem type_mergeSchemas {merged : JSONSchema} (hexisting : existing.type = some type)
    (hincoming : incoming.type = some type) (h : mergeSchemas existing incoming = some merged) :
    merged.type = some type := by
  cases existing with
  | primitive p =>
    have hmerge : mergeSchemas (.primitive p) incoming = some incoming := by
      cases incoming <;> simp_all [mergeSchemas, JSONSchema.type]
    rw [← Option.some.inj (hmerge.symm.trans h)]
    exact hincoming
  | array items =>
    obtain rfl := Option.some.inj hexisting
    cases incoming with
    | array items' =>
      cases items with
      | none =>
        rw [← Option.some.inj h]
        rfl
      | some schema =>
        cases items' with
        | none =>
          rw [← Option.some.inj h]
          rfl
        | some schema' =>
          rw [mergeSchemas] at h
          obtain ⟨items, -, hitems⟩ := Option.bind_eq_some_iff.1 h
          rw [← Option.some.inj hitems]
          rfl
    | primitive | object | anyOf => cases hincoming
  | object properties inherited required =>
    obtain rfl := Option.some.inj hexisting
    cases incoming with
    | object properties' inherited' required' =>
      rw [mergeSchemas] at h
      obtain ⟨properties, -, h⟩ := Option.bind_eq_some_iff.1 h
      obtain ⟨added, -, h⟩ := Option.bind_eq_some_iff.1 h
      rw [← Option.some.inj h]
      rfl
    | primitive | array | anyOf => cases hincoming
  | anyOf variants => cases hexisting

def JSONSchema.variant (type : SchemaType) (schema : JSONSchema) : Option JSONSchema :=
  schema.variants.find? fun v => v.type = some type

private theorem variant_of_type {type' : SchemaType} (h : schema.type = some type') :
    schema.variant type = if type' = type then some schema else none := by
  rw [JSONSchema.variant, variants_of_type h, List.find?_singleton, h]
  simp

private theorem variant_anyOf (schemas : List JSONSchema) :
    (JSONSchema.anyOf schemas).variant type = schemas.find? fun v => v.type = some type := rfl

private theorem find?_of_nodup (hnodup : (schemas.map JSONSchema.type).Nodup) (hschema : schema ∈ schemas)
    (htype : schema.type = some type) : (schemas.find? fun v => v.type = some type) = some schema := by
  cases hfind : schemas.find? fun v => v.type = some type with
  | none =>
    have hnone := List.find?_eq_none.1 hfind schema hschema
    simp [htype] at hnone
  | some v =>
    have hv : v.type = some type := by simpa using List.find?_some hfind
    have hsame := List.inj_on_of_nodup_map hnodup hschema (List.mem_of_find?_eq_some hfind) (htype.trans hv.symm)
    rw [hsame]

theorem accepts_iff_variant (h : schema.Proper) :
    accepts schema value = true ↔ ∃ v, schema.variant (typeOf value) = some v ∧ accepts v value = true := by
  cases htype : schema.type with
  | some type =>
    rw [variant_of_type htype]
    constructor
    · intro haccepts
      rw [if_pos (type_of_accepts htype haccepts).symm]
      exact ⟨schema, rfl, haccepts⟩
    · rintro ⟨v, hv, haccepts⟩
      split_ifs at hv
      rw [Option.some.inj hv]
      exact haccepts
  | none =>
    cases schema with
    | anyOf schemas =>
      rw [accepts, acceptsAny_iff, variant_anyOf]
      constructor
      · rintro ⟨v, hv, haccepts⟩
        obtain ⟨type, hvtype⟩ := Option.ne_none_iff_exists'.1 (h.2.2 v hv)
        obtain rfl := type_of_accepts hvtype haccepts
        exact ⟨v, find?_of_nodup h.2.1 hv hvtype, haccepts⟩
      · rintro ⟨v, hv, haccepts⟩
        exact ⟨v, List.mem_of_find?_eq_some hv, haccepts⟩
    | primitive | array | object => cases htype

end Types

/-! ### The values that are merged -/

def Uniform (type : SchemaType) (values : List Json) : Prop := ∀ value ∈ values, typeOf value = type

instance (type : SchemaType) (values : List Json) : Decidable (Uniform type values) :=
  List.decidableBAll (fun value => typeOf value = type) values

/-- The values of a type that are merged: as long as the type does not change those of the first type, and the first
one of any other type. -/
def members (type : SchemaType) : List Json → List Json
  | [] => []
  | value :: values =>
    if typeOf value = type then value :: values.takeWhile (typeOf · = type)
    else (values.find? (typeOf · = type)).toList

section Members

variable {type : SchemaType} {values : List Json} {value : Json}

theorem members_of_uniform (h : Uniform type values) : members type values = values := by
  cases values with
  | nil => rfl
  | cons value values =>
    obtain ⟨hvalue, hrest⟩ := List.forall_mem_cons.1 h
    rw [members, if_pos hvalue, List.takeWhile_eq_self_iff.2]
    intro v hv
    exact decide_eq_true (hrest v hv)

theorem uniform_members (type : SchemaType) (values : List Json) : Uniform type (members type values) := by
  cases values with
  | nil => exact fun _ h => nomatch h
  | cons value values =>
    rw [members]
    split_ifs with htype
    · refine List.forall_mem_cons.2 ⟨htype, fun v hv => ?_⟩
      simpa using List.mem_takeWhile_imp hv
    · intro v hv
      simpa using List.find?_some (Option.mem_toList.1 hv)

theorem members_subset (type : SchemaType) (values : List Json) : members type values ⊆ values := by
  cases values with
  | nil => exact List.Subset.refl _
  | cons value values =>
    rw [members]
    split_ifs
    · exact List.cons_subset_cons _ (List.takeWhile_sublist _).subset
    · intro v hv
      exact List.mem_cons_of_mem _ (List.mem_of_find?_eq_some (Option.mem_toList.1 hv))

theorem members_eq_nil : members type values = [] ↔ ∀ v ∈ values, typeOf v ≠ type := by
  cases values with
  | nil => simp [members]
  | cons value values =>
    rw [members, List.forall_mem_cons]
    split_ifs with htype
    · simp [htype]
    · simp [htype, List.find?_eq_none]

private theorem takeWhile_concat (p : Json → Bool) (values : List Json) (value : Json) :
    (values ++ [value]).takeWhile p =
    if ∀ v ∈ values, p v = true then values ++ [value].takeWhile p else values.takeWhile p := by
  rw [List.takeWhile_append]
  by_cases hall : ∀ v ∈ values, p v = true
  · rw [if_pos hall, if_pos (by rw [List.takeWhile_eq_self_iff.2 hall])]
  · rw [if_neg hall, if_neg]
    intro hlength
    exact hall (List.takeWhile_eq_self_iff.1 ((List.takeWhile_prefix p).eq_of_length hlength))

private theorem members_concat (hne : values ≠ []) (value : Json) : members type (values ++ [value]) =
    if Uniform type values ∨ members type values = [] then
      members type values ++ if typeOf value = type then [value] else []
    else members type values := by
  obtain ⟨first, rest, rfl⟩ := List.exists_cons_of_ne_nil hne
  rw [List.cons_append, members, members]
  by_cases hfirst : typeOf first = type
  · have huniform : Uniform type (first :: rest) ↔ ∀ v ∈ rest, decide (typeOf v = type) = true := by
      simp [Uniform, hfirst]
    rw [if_pos hfirst, if_pos hfirst, takeWhile_concat]
    by_cases hall : ∀ v ∈ rest, decide (typeOf v = type) = true
    · rw [if_pos hall, if_pos (.inl (huniform.2 hall)), List.takeWhile_eq_self_iff.2 hall]
      by_cases hvalue : typeOf value = type
      · simp [hvalue]
      · simp [hvalue]
    · rw [if_neg hall, if_neg]
      rintro (h | h)
      · exact hall (huniform.1 h)
      · cases h
  · have huniform : ¬Uniform type (first :: rest) := fun h => hfirst (h first List.mem_cons_self)
    rw [if_neg hfirst, if_neg hfirst, List.find?_append]
    cases hfind : rest.find? fun v => typeOf v = type with
    | none =>
      rw [if_pos (.inr rfl)]
      by_cases hvalue : typeOf value = type
      · simp [hvalue]
      · simp [hvalue]
    | some v =>
      rw [if_neg]
      · rfl
      · rintro (h | h)
        · exact huniform h
        · cases h

end Members

/-! ### Learning from values of several types -/

section Learning

variable {type : SchemaType} {values : List Json} {schema merged : JSONSchema}

@[simp] theorem learnSchema_singleton (value : Json) : learnSchema [value] = some (inferSchema value) := rfl

private theorem learnSchema_concat (hne : values ≠ []) (value : Json) : learnSchema (values ++ [value]) =
    (learnSchema values).bind fun schema => mergeSchemas schema (inferSchema value) := by
  obtain ⟨first, rest, rfl⟩ := List.exists_cons_of_ne_nil hne
  rw [List.cons_append, learnSchema, learnSchema, List.foldlM_append]
  cases rest.foldlM (fun schema value => mergeSchemas schema (inferSchema value)) (inferSchema first) with
  | none => rfl
  | some schema =>
    simp only [Option.bind_eq_bind, Option.bind_some, List.foldlM_cons, List.foldlM_nil]
    cases mergeSchemas schema (inferSchema value) <;> rfl

private theorem learnSchema_append_ne_none (hne : values ≠ []) {rest : List Json}
    (h : learnSchema (values ++ rest) ≠ none) :
    learnSchema values ≠ none := by
  induction rest using List.reverseRecOn with
  | nil => rwa [List.append_nil] at h
  | append_singleton rest value ih =>
    refine ih fun hnone => h ?_
    rw [← List.append_assoc, learnSchema_concat (by simp [hne]), hnone]
    rfl

private theorem variant_anyOf_eq_none {schemas : List JSONSchema} :
    (JSONSchema.anyOf schemas).variant type = none ↔ some type ∉ schemas.map JSONSchema.type := by
  rw [variant_anyOf, List.find?_eq_none, List.mem_map]
  simp only [decide_eq_true_eq, not_exists, not_and]

/-- What is learned from the values: the variant of a type is learned from the values of the type that are merged. -/
structure Learned (values : List Json) (schema : JSONSchema) : Prop where
  proper : schema.Proper
  type_iff : ∀ type, schema.type = some type ↔ Uniform type values
  variant_eq : ∀ type, schema.variant type = learnSchema (members type values)
  variant_ne_none : ∀ type, members type values ≠ [] → schema.variant type ≠ none

private theorem learned_singleton (value : Json) : Learned [value] (inferSchema value) where
  proper := proper_of_type (type_inferSchema value)
  type_iff type := by simp [type_inferSchema, Uniform]
  variant_eq type := by
    rw [variant_of_type (type_inferSchema value), members]
    split_ifs
    · rfl
    · rfl
  variant_ne_none type hmembers := by
    rw [variant_of_type (type_inferSchema value)]
    split_ifs with htype
    · exact Option.some_ne_none _
    · exact absurd (members_eq_nil.2 (by simpa using htype)) hmembers

private theorem uniform_concat {value : Json} (h : Uniform (typeOf value) values) :
    Uniform (typeOf value) (values ++ [value]) := by
  intro v hv
  rcases List.mem_append.1 hv with hv | hv
  · exact h v hv
  · rw [List.mem_singleton.1 hv]

private theorem not_uniform_concat {value : Json} (h : ¬Uniform (typeOf value) values) (type : SchemaType) :
    ¬Uniform type (values ++ [value]) := by
  intro huniform
  have htype : typeOf value = type := huniform value (by simp)
  subst htype
  exact h fun v hv => huniform v (List.mem_append_left _ hv)

/-- All values have one type so far, and the next one has it too. -/
theorem Learned.same {value : Json} (huniform : Uniform (typeOf value) values)
    (hmerged : learnSchema (values ++ [value]) = some merged) (htype : merged.type = some (typeOf value)) :
    Learned (values ++ [value]) merged := by
  have hall := uniform_concat huniform
  have hother : ∀ type, typeOf value ≠ type → members type (values ++ [value]) = [] := by
    intro type hne'
    refine members_eq_nil.2 fun v hv heq => hne' ?_
    rw [← hall v hv, heq]
  refine ⟨proper_of_type htype, fun type => ?_, fun type => ?_, fun type hmembers => ?_⟩
  · rw [htype]
    constructor
    · intro heq
      obtain rfl := Option.some.inj heq
      exact hall
    · intro h
      rw [h value (by simp)]
  · rw [variant_of_type htype]
    split_ifs with heq
    · subst heq
      rw [members_of_uniform hall, hmerged]
    · rw [hother type heq]
      rfl
  · rw [variant_of_type htype]
    split_ifs with heq
    · exact Option.some_ne_none _
    · exact absurd (hother type heq) hmembers

/-- The type has changed: the variants stay, and one of a new type is added. -/
theorem Learned.changed (hne : values ≠ []) {value : Json} (h : Learned values schema)
    (hchanged : ¬Uniform (typeOf value) values) (hproper : merged.Proper) (htype : merged.type = none)
    (hvariant : ∀ type, merged.variant type =
      (schema.variant type).or (if typeOf value = type then some (inferSchema value) else none)) :
    Learned (values ++ [value]) merged := by
  have hmembers : ∀ type, members type values ≠ [] → members type (values ++ [value]) = members type values := by
    intro type hsome
    rw [members_concat hne]
    by_cases huniform : Uniform type values
    · have hother : typeOf value ≠ type := fun heq => hchanged (heq ▸ huniform)
      rw [if_pos (.inl huniform), if_neg hother, List.append_nil]
    · rw [if_neg (by simp [huniform, hsome])]
  have hnew : ∀ type, members type values = [] →
      members type (values ++ [value]) = if typeOf value = type then [value] else [] := by
    intro type hnil
    rw [members_concat hne, if_pos (.inr hnil), hnil, List.nil_append]
  have heq : ∀ type, merged.variant type = learnSchema (members type (values ++ [value])) := by
    intro type
    rw [hvariant]
    by_cases hnil : members type values = []
    · rw [hnew type hnil, h.variant_eq, hnil]
      split_ifs
      · rfl
      · rfl
    · obtain ⟨v, hv⟩ := Option.ne_none_iff_exists'.1 (h.variant_ne_none type hnil)
      rw [hmembers type hnil, ← h.variant_eq, hv]
      rfl
  refine ⟨hproper, fun type => ?_, heq, fun type hsome => ?_⟩
  · rw [htype]
    exact ⟨nofun, fun huniform => absurd huniform (not_uniform_concat hchanged type)⟩
  · by_cases hnil : members type values = []
    · rw [hnew type hnil] at hsome
      rw [heq, hnew type hnil]
      split_ifs at hsome ⊢
      · exact Option.some_ne_none _
      · exact absurd rfl hsome
    · rw [heq, hmembers type hnil, ← h.variant_eq]
      exact h.variant_ne_none type hnil

theorem Learned.merge_changed (hne : values ≠ []) {value : Json} (h : Learned values schema)
    (hchanged : ¬Uniform (typeOf value) values) : ∃ merged,
      mergeSchemas schema (inferSchema value) = some merged ∧ Learned (values ++ [value]) merged := by
  have hincoming := type_inferSchema value
  cases htype : schema.type with
  | some type =>
    have huniform := (h.type_iff type).1 htype
    have hdiffers : type ≠ typeOf value := fun heq => hchanged (heq ▸ huniform)
    refine ⟨_, mergeSchemas_of_types htype hincoming hdiffers, h.changed hne hchanged ⟨Nat.le_refl 2, ?_, ?_⟩ rfl ?_⟩
    · simp [htype, hincoming, hdiffers]
    · simp [htype, hincoming]
    · intro type'
      rw [variant_of_type htype, variant_anyOf, List.find?_cons, List.find?_singleton, htype, hincoming]
      by_cases heq : type = type'
      · simp [heq]
      · simp [heq]
  | none =>
    cases schema with
    | anyOf schemas =>
      obtain ⟨hlength, hnodup, hsome⟩ := h.proper
      refine ⟨_, mergeSchemas_anyOf h.proper hincoming, h.changed hne hchanged ?_ rfl ?_⟩
      · by_cases hmem : some (typeOf value) ∈ schemas.map JSONSchema.type
        · rw [if_pos hmem]
          exact h.proper
        · rw [if_neg hmem]
          refine ⟨?_, ?_, ?_⟩
          · rw [List.length_append]
            omega
          · rw [List.map_append, List.map_singleton, hincoming, List.nodup_append]
            refine ⟨hnodup, List.nodup_singleton _, fun type hin type' hin' heq => hmem ?_⟩
            rw [← List.mem_singleton.1 hin', ← heq]
            exact hin
          · intro v hv
            rcases List.mem_append.1 hv with hv | hv
            · exact hsome v hv
            · rw [List.mem_singleton.1 hv, hincoming]
              exact Option.some_ne_none _
      · intro type
        by_cases hmem : some (typeOf value) ∈ schemas.map JSONSchema.type
        · rw [if_pos hmem]
          by_cases heq : typeOf value = type
          · have hvariant : (JSONSchema.anyOf schemas).variant type ≠ none :=
              fun hnone => variant_anyOf_eq_none.1 hnone (heq ▸ hmem)
            obtain ⟨v, hv⟩ := Option.ne_none_iff_exists'.1 hvariant
            rw [hv]
            rfl
          · rw [if_neg heq, Option.or_none]
        · rw [if_neg hmem, variant_anyOf, List.find?_append, List.find?_singleton, hincoming, variant_anyOf]
          simp
    | primitive | array | object => cases htype

theorem learned_of_learnSchema (h : learnSchema values = some schema) : Learned values schema := by
  induction values using List.reverseRecOn generalizing schema with
  | nil => cases h
  | append_singleton values value ih =>
    by_cases hne : values = []
    · subst hne
      obtain rfl := Option.some.inj h
      exact learned_singleton value
    · have hconcat := h
      rw [learnSchema_concat hne] at h
      obtain ⟨existing, hexisting, hmerge⟩ := Option.bind_eq_some_iff.1 h
      have hlearned := ih hexisting
      by_cases huniform : Uniform (typeOf value) values
      · have htype := type_mergeSchemas ((hlearned.type_iff _).2 huniform) (type_inferSchema value) hmerge
        exact Learned.same huniform hconcat htype
      · obtain ⟨merged, hmerged, hresult⟩ := hlearned.merge_changed hne huniform
        rw [← Option.some.inj (hmerged.symm.trans hmerge)]
        exact hresult

theorem learnSchema_ne_none_iff (hne : values ≠ []) : learnSchema values ≠ none ↔
    ∀ type, members type values ≠ [] → learnSchema (members type values) ≠ none := by
  constructor
  · intro h type hsome
    obtain ⟨schema, hschema⟩ := Option.ne_none_iff_exists'.1 h
    have hlearned := learned_of_learnSchema hschema
    rw [← hlearned.variant_eq]
    exact hlearned.variant_ne_none type hsome
  · intro h
    induction values using List.reverseRecOn with
    | nil => exact absurd rfl hne
    | append_singleton values value ih =>
      by_cases hnil : values = []
      · subst hnil
        exact Option.some_ne_none _
      · by_cases huniform : Uniform (typeOf value) values
        · have hwhole := h (typeOf value)
          rw [members_of_uniform (uniform_concat huniform)] at hwhole
          exact hwhole hne
        · have hbefore : learnSchema values ≠ none := by
            refine ih hnil fun type hsome => ?_
            have hlater := h type
            rw [members_concat hnil] at hlater
            split_ifs at hlater with hgrows htype
            · exact learnSchema_append_ne_none hsome (hlater (by simp))
            · rw [List.append_nil] at hlater
              exact hlater hsome
            · exact hlater hsome
          obtain ⟨existing, hexisting⟩ := Option.ne_none_iff_exists'.1 hbefore
          obtain ⟨merged, hmerged, -⟩ := (learned_of_learnSchema hexisting).merge_changed hnil huniform
          rw [learnSchema_concat hnil, hexisting, Option.bind_some, hmerged]
          exact Option.some_ne_none _

end Learning

/-! ### Learning from values of one type -/

/-- The first element of an array. -/
def firstItem : Json → Option Json
  | .arr (item :: _) => some item
  | _ => none

section Uniform

variable {values : List Json} {schema : JSONSchema}

private theorem uniform_of_concat {type : SchemaType} {value : Json} (h : Uniform type (values ++ [value])) :
    Uniform type values ∧ typeOf value = type :=
  ⟨fun v hv => h v (List.mem_append_left _ hv), h value (by simp)⟩

theorem learnSchema_primitive {p : Primitive} (hne : values ≠ []) (h : Uniform (.primitive p) values) :
    learnSchema values = some (.primitive p) := by
  induction values using List.reverseRecOn with
  | nil => exact absurd rfl hne
  | append_singleton values value ih =>
    obtain ⟨hrest, hvalue⟩ := uniform_of_concat h
    have hinfer : inferSchema value = .primitive p := by
      cases value <;> simp_all [inferSchema, typeOf]
    by_cases hnil : values = []
    · subst hnil
      rw [List.nil_append, learnSchema_singleton, hinfer]
    · rw [learnSchema_concat hnil, ih hnil hrest, hinfer]
      simp [mergeSchemas]

private theorem inferSchema_array {value : Json} (h : typeOf value = .array) :
    inferSchema value = .array ((firstItem value).map inferSchema) := by
  cases value with
  | arr items => cases items <;> simp [inferSchema, firstItem]
  | _ => cases h

theorem learnSchema_array (hne : values ≠ []) (h : Uniform .array values) : learnSchema values =
    if values.filterMap firstItem = [] then some (.array none)
    else (learnSchema (values.filterMap firstItem)).map fun items => .array (some items) := by
  induction values using List.reverseRecOn with
  | nil => exact absurd rfl hne
  | append_singleton values value ih =>
    obtain ⟨hrest, hvalue⟩ := uniform_of_concat h
    have hinfer := inferSchema_array hvalue
    by_cases hnil : values = []
    · subst hnil
      rw [List.nil_append, learnSchema_singleton, hinfer]
      cases hfirst : firstItem value with
      | none => simp [hfirst]
      | some item => simp [hfirst]
    · rw [learnSchema_concat hnil, ih hnil hrest, hinfer, List.filterMap_append]
      by_cases hitems : values.filterMap firstItem = []
      · cases hfirst : firstItem value with
        | none => simp [hitems, hfirst, mergeSchemas]
        | some item => simp [hitems, hfirst, mergeSchemas]
      · rw [if_neg hitems]
        cases hfirst : firstItem value with
        | none =>
          cases hlearn : learnSchema (values.filterMap firstItem) with
          | none => simp [hitems, hfirst, hlearn]
          | some items => simp [hitems, hfirst, hlearn, mergeSchemas]
        | some item =>
          rw [show [value].filterMap firstItem = [item] by simp [hfirst], learnSchema_concat hitems, if_neg (by simp)]
          cases hlearn : learnSchema (values.filterMap firstItem) with
          | none => rfl
          | some items =>
            simp only [Option.map_some, Option.bind_some, mergeSchemas]
            cases mergeSchemas items (inferSchema item) <;> rfl

end Uniform

/-! ### Learning from objects -/

/-- The properties with a name in several objects. -/
def properties (key : String) (values : List Json) : List Json := values.filterMap (ownProperty key)

/-- The names that the properties of the schema of several objects inherit: merging makes new objects. -/
def inheritedBy : List Json → List String
  | [value] => inheritedNames value
  | _ => []

/-- Merging the schema of the values with that of one more reads no name that is inherited. -/
structure Readable (values : List Json) (value : Json) : Prop where
  existing : ∀ key, properties key values ≠ [] → ownProperty key value = none →
    key ∉ inheritedNames value ∧ key ∉ objectPrototype
  incoming : ∀ key, properties key values = [] → ownProperty key value ≠ none →
    key ∉ inheritedBy values ∧ key ∉ objectPrototype

/-- The schema of the objects can be merged with that of one more. -/
def Extensible (values : List Json) (value : Json) : Prop :=
  Readable values value ∧ ∀ key, properties key values ≠ [] → ownProperty key value ≠ none →
    learnSchema (properties key (values ++ [value])) ≠ none

/-- The schema that is learned from objects. -/
structure LearnedObject (values : List Json) (schemas : List (String × JSONSchema)) (required : Option (List String)) :
    Prop where
  nodup : (schemas.map Prod.fst).Nodup
  lookup_eq : ∀ key, schemas.lookup key = learnSchema (properties key values)
  lookup_ne_none : ∀ key, properties key values ≠ [] → schemas.lookup key ≠ none
  mem_required : ∀ key, key ∈ required.getD [] ↔ ∀ value ∈ values, value.field key ≠ none

section Objects

variable {values : List Json} {value : Json} {schemas incoming : List (String × JSONSchema)}
  {required : Option (List String)}

private theorem properties_concat (key : String) (values : List Json) (value : Json) :
    properties key (values ++ [value]) = properties key values ++ (ownProperty key value).toList := by
  unfold properties
  rw [List.filterMap_append]
  cases hproperty : ownProperty key value with
  | none => simp [hproperty]
  | some v => simp [hproperty]

private theorem mem_mergeRequired {key : String} (existing incoming : Option (List String)) :
    key ∈ (mergeRequired existing incoming).getD [] ↔ key ∈ existing.getD [] ∧ key ∈ incoming.getD [] := by
  unfold mergeRequired
  have hfilter : key ∈ (existing.getD []).filter (· ∈ incoming.getD []) ↔
      key ∈ existing.getD [] ∧ key ∈ incoming.getD [] := by
    rw [List.mem_filter, decide_eq_true_eq]
  rw [← hfilter]
  dsimp only
  split_ifs with hnil
  · rw [hnil]
    rfl
  · rfl

theorem mem_keys_iff (fields : List (String × Json)) (key : String) :
    key ∈ fields.map Prod.fst ↔ fields.lookup key ≠ none := by
  rw [Ne, Assoc.lookup_eq_none, List.mem_map]
  constructor
  · rintro ⟨e, he, rfl⟩ hnone
    exact hnone e.2 he
  · intro h
    rw [not_forall] at h
    obtain ⟨v, hv⟩ := h
    exact ⟨(key, v), not_not.1 hv, rfl⟩

private theorem learnSchema_properties_singleton (key : String) (value : Json) :
    learnSchema (properties key [value]) = (ownProperty key value).map inferSchema := by
  unfold properties
  cases hproperty : ownProperty key value with
  | none => simp [hproperty, learnSchema]
  | some v => simp [hproperty]

private theorem learnedObject_singleton (fields : List (String × Json)) : ∃ schemas,
    inferSchema (.obj fields) = .object schemas (inheritedNames (.obj fields)) (some (fields.map Prod.fst)) ∧
      LearnedObject [.obj fields] schemas (some (fields.map Prod.fst)) := by
  obtain ⟨schemas, hinfer, hnodup, hlookup⟩ := inferSchema_obj fields
  have heq : ∀ key, schemas.lookup key = learnSchema (properties key [.obj fields]) := by
    intro key
    rw [hlookup, learnSchema_properties_singleton]
  refine ⟨schemas, hinfer, hnodup, heq, fun key hsome => ?_, fun key => ?_⟩
  · rw [hlookup]
    intro hnone
    rw [Option.map_eq_none_iff] at hnone
    exact hsome (by simp [properties, hnone])
  · rw [Option.getD_some, mem_keys_iff, List.forall_mem_singleton, Json.field_obj]

private theorem mergeable_iff (h : LearnedObject values schemas required)
    (hincoming : ∀ key, incoming.lookup key = (ownProperty key value).map inferSchema) :
    Mergeable schemas (inheritedBy values) incoming (inheritedNames value) ↔ Extensible values value := by
  have hexisting : ∀ key, schemas.lookup key = none ↔ properties key values = [] := by
    intro key
    refine ⟨fun hnone => not_not.1 fun hsome => h.lookup_ne_none key hsome hnone, fun hnil => ?_⟩
    rw [h.lookup_eq, hnil]
    rfl
  have hadded : ∀ key, incoming.lookup key = none ↔ ownProperty key value = none := by
    intro key
    rw [hincoming, Option.map_eq_none_iff]
  have hmerge : ∀ key schema v, schemas.lookup key = some schema → ownProperty key value = some v →
      learnSchema (properties key (values ++ [value])) = mergeSchemas schema (inferSchema v) := by
    intro key schema v hschema hv
    have hsome : properties key values ≠ [] := fun hnil => nomatch hschema.symm.trans ((hexisting key).2 hnil)
    rw [properties_concat, hv, Option.toList_some, learnSchema_concat hsome, ← h.lookup_eq, hschema, Option.bind_some]
  constructor
  · intro hmergeable
    refine ⟨⟨fun key hsome hnone => ?_, fun key hnil hsome => ?_⟩, fun key hsome hsome' => ?_⟩
    · have hinherits := hmergeable.left key (fun hlookup => hsome ((hexisting key).1 hlookup))
      exact not_or.1 fun hor => hinherits ⟨(hadded key).2 hnone, hor⟩
    · have hinherits := hmergeable.right key (fun hlookup => hsome ((hadded key).1 hlookup))
      exact not_or.1 fun hor => hinherits ⟨(hexisting key).2 hnil, hor⟩
    · obtain ⟨schema, hschema⟩ := Option.ne_none_iff_exists'.1 (h.lookup_ne_none key hsome)
      obtain ⟨v, hv⟩ := Option.ne_none_iff_exists'.1 hsome'
      rw [hmerge key schema v hschema hv]
      exact hmergeable.both key schema _ hschema (by rw [hincoming, hv]; rfl)
  · rintro ⟨hreadable, hnested⟩
    refine ⟨fun key hsome hinherits => ?_, fun key hsome hinherits => ?_, fun key schema schema' hs hs' => ?_⟩
    · have hnot := hreadable.existing key (fun hnil => hsome ((hexisting key).2 hnil)) ((hadded key).1 hinherits.1)
      exact hinherits.2.elim hnot.1 hnot.2
    · have hnot := hreadable.incoming key ((hexisting key).1 hinherits.1) (fun hnone => hsome ((hadded key).2 hnone))
      exact hinherits.2.elim hnot.1 hnot.2
    · rw [hincoming] at hs'
      obtain ⟨v, hv, rfl⟩ := Option.map_eq_some_iff.1 hs'
      rw [← hmerge key schema v hs hv]
      refine hnested key (fun hnil => ?_) (by rw [hv]; exact Option.some_ne_none _)
      exact nomatch hs.symm.trans ((hexisting key).2 hnil)

theorem exists_fields {value : Json} (h : typeOf value = .object) : ∃ fields, value = .obj fields := by
  cases value with
  | obj fields => exact ⟨fields, rfl⟩
  | _ => cases h

private theorem inheritedBy_concat (hne : values ≠ []) (value : Json) : inheritedBy (values ++ [value]) = [] := by
  match values, hne with
  | [_], _ => rfl
  | _ :: _ :: _, _ => rfl

theorem LearnedObject.concat (hne : values ≠ []) (h : LearnedObject values schemas required)
    (hlearn : learnSchema values = some (.object schemas (inheritedBy values) required)) {fields : List (String × Json)}
    (hext : Extensible values (.obj fields)) : ∃ schemas required,
      learnSchema (values ++ [.obj fields]) = some (.object schemas [] required) ∧
        LearnedObject (values ++ [.obj fields]) schemas required := by
  obtain ⟨incoming, hinfer, hnodup, hincoming⟩ := inferSchema_obj fields
  rw [learnSchema_concat hne, hlearn, Option.bind_some, hinfer]
  obtain ⟨merged, hmerged, hnodup, hlookup⟩ :=
    mergeSchemas_object h.nodup hnodup ((mergeable_iff h hincoming).2 hext) required (some (fields.map Prod.fst))
  have heq : ∀ key, merged.lookup key = learnSchema (properties key (values ++ [.obj fields])) := by
    intro key
    rw [hlookup, properties_concat, hincoming, h.lookup_eq]
    by_cases hnil : properties key values = []
    · rw [hnil, List.nil_append]
      cases ownProperty key (.obj fields) <;> rfl
    · obtain ⟨schema, hschema⟩ := Option.ne_none_iff_exists'.1 (h.lookup_ne_none key hnil)
      rw [h.lookup_eq] at hschema
      cases ownProperty key (.obj fields) with
      | none => simp [hschema]
      | some v => simp [learnSchema_concat hnil, hschema]
  refine ⟨merged, _, hmerged, hnodup, heq, fun key hsome => ?_, fun key => ?_⟩
  · by_cases hboth : properties key values ≠ [] ∧ ownProperty key (.obj fields) ≠ none
    · rw [heq]
      exact hext.2 key hboth.1 hboth.2
    · rw [heq]
      rw [properties_concat] at hsome ⊢
      by_cases hnil : properties key values = []
      · rw [hnil] at hsome ⊢
        cases hproperty : ownProperty key (.obj fields) with
        | none => simp [hproperty] at hsome
        | some v => exact Option.some_ne_none _
      · have hnone : ownProperty key (.obj fields) = none := not_not.1 fun hv => hboth ⟨hnil, hv⟩
        rw [hnone, Option.toList_none, List.append_nil, ← h.lookup_eq]
        exact h.lookup_ne_none key hnil
  · rw [mem_mergeRequired, h.mem_required, Option.getD_some, mem_keys_iff, List.forall_mem_append,
      List.forall_mem_singleton, Json.field_obj]

theorem LearnedObject.concat_eq_none (hne : values ≠ []) (h : LearnedObject values schemas required)
    (hlearn : learnSchema values = some (.object schemas (inheritedBy values) required)) {fields : List (String × Json)}
    (hext : ¬Extensible values (.obj fields)) : learnSchema (values ++ [.obj fields]) = none := by
  obtain ⟨incoming, hinfer, hnodup, hincoming⟩ := inferSchema_obj fields
  rw [learnSchema_concat hne, hlearn, Option.bind_some, hinfer]
  exact mergeSchemas_object_eq_none (fun hmergeable => hext ((mergeable_iff h hincoming).1 hmergeable)) _ _

theorem learnSchema_object {schema : JSONSchema} (huniform : Uniform .object values)
    (h : learnSchema values = some schema) : ∃ schemas required,
      schema = .object schemas (inheritedBy values) required ∧ LearnedObject values schemas required := by
  induction values using List.reverseRecOn generalizing schema with
  | nil => cases h
  | append_singleton values value ih =>
    obtain ⟨hrest, hvalue⟩ := uniform_of_concat huniform
    obtain ⟨fields, rfl⟩ := exists_fields hvalue
    by_cases hne : values = []
    · subst hne
      obtain ⟨schemas, hinfer, hlearned⟩ := learnedObject_singleton fields
      refine ⟨schemas, _, ?_, hlearned⟩
      exact (Option.some.inj h).symm.trans hinfer
    · have hlearn : learnSchema (values ++ [.obj fields]) ≠ none := by
        rw [h]
        exact Option.some_ne_none _
      have hbefore := learnSchema_append_ne_none hne hlearn
      obtain ⟨existing, hexisting⟩ := Option.ne_none_iff_exists'.1 hbefore
      obtain ⟨schemas, required, rfl, hlearned⟩ := ih hrest hexisting
      by_cases hext : Extensible values (.obj fields)
      · obtain ⟨schemas', required', hmerged, hlearned'⟩ := hlearned.concat hne hexisting hext
        refine ⟨schemas', required', ?_, hlearned'⟩
        rw [inheritedBy_concat hne]
        exact Option.some.inj (h.symm.trans hmerged)
      · exact nomatch (hlearned.concat_eq_none hne hexisting hext).symm.trans h

/-- No merge of the schemas of the values reads a name that is inherited. -/
def AllReadable (values : List Json) : Prop :=
  ∀ before value after, values = before ++ value :: after → before ≠ [] → Readable before value

theorem allReadable_nil : AllReadable [] := by
  intro before value after h
  simp at h

private theorem allReadable_singleton (value : Json) : AllReadable [value] := by
  intro before value' after h hne
  obtain ⟨first, rest, rfl⟩ := List.exists_cons_of_ne_nil hne
  simp at h

private theorem allReadable_concat (hne : values ≠ []) :
    AllReadable (values ++ [value]) ↔ AllReadable values ∧ Readable values value := by
  constructor
  · intro h
    refine ⟨fun before v after heq hbefore => h before v (after ++ [value]) ?_ hbefore, h values value [] rfl hne⟩
    rw [heq, List.append_assoc]
    rfl
  · rintro ⟨hbefore, hlast⟩ before v after heq hne'
    rcases List.eq_nil_or_concat after with rfl | ⟨after, last, rfl⟩
    · obtain ⟨rfl, hv⟩ := List.append_inj' heq rfl
      obtain rfl := List.singleton_inj.1 hv
      exact hlast
    · rw [List.concat_eq_append, ← List.cons_append, ← List.append_assoc] at heq
      obtain ⟨hvalues, -⟩ := List.append_inj' heq rfl
      exact hbefore before v after hvalues hne'

theorem learnSchema_object_ne_none_iff (hne : values ≠ []) (huniform : Uniform .object values) :
    learnSchema values ≠ none ↔
      AllReadable values ∧ ∀ key, properties key values ≠ [] → learnSchema (properties key values) ≠ none := by
  induction values using List.reverseRecOn with
  | nil => exact absurd rfl hne
  | append_singleton values value ih =>
    obtain ⟨hrest, hvalue⟩ := uniform_of_concat huniform
    obtain ⟨fields, rfl⟩ := exists_fields hvalue
    by_cases hnil : values = []
    · subst hnil
      refine ⟨fun _ => ⟨allReadable_singleton _, fun key hsome => ?_⟩, fun _ => Option.some_ne_none _⟩
      obtain ⟨schemas, -, hlearned⟩ := learnedObject_singleton fields
      rw [List.nil_append, ← hlearned.lookup_eq]
      exact hlearned.lookup_ne_none key hsome
    · rw [allReadable_concat hnil]
      constructor
      · intro h
        have hbefore := learnSchema_append_ne_none hnil h
        obtain ⟨schema, hschema⟩ := Option.ne_none_iff_exists'.1 h
        obtain ⟨schemas, required, -, hlearned⟩ := learnSchema_object huniform hschema
        obtain ⟨existing, hexisting⟩ := Option.ne_none_iff_exists'.1 hbefore
        obtain ⟨_, _, rfl, hobject⟩ := learnSchema_object hrest hexisting
        have hext : Extensible values (.obj fields) := by
          by_contra hext
          exact h (hobject.concat_eq_none hnil hexisting hext)
        refine ⟨⟨((ih hnil hrest).1 hbefore).1, hext.1⟩, fun key hsome => ?_⟩
        rw [← hlearned.lookup_eq]
        exact hlearned.lookup_ne_none key hsome
      · rintro ⟨⟨hall, hreadable⟩, hnested⟩
        have hbefore : learnSchema values ≠ none := by
          refine (ih hnil hrest).2 ⟨hall, fun key hsome => ?_⟩
          have hlater := hnested key
          rw [properties_concat] at hlater
          exact learnSchema_append_ne_none hsome (hlater (by simp [hsome]))
        obtain ⟨existing, hexisting⟩ := Option.ne_none_iff_exists'.1 hbefore
        obtain ⟨schemas, required, rfl, hobject⟩ := learnSchema_object hrest hexisting
        have hext : Extensible values (.obj fields) := by
          refine ⟨hreadable, fun key hsome _ => hnested key ?_⟩
          rw [properties_concat]
          simp [hsome]
        obtain ⟨_, _, hmerged, -⟩ := hobject.concat hnil hexisting hext
        rw [hmerged]
        exact Option.some_ne_none _

end Objects

end Noda.Editor
