import Noda.Editor.LearnedSchemas

/-!
# What learned schemas cover

A learned schema is meant to accept every value that it was learned from.  It is learned place by place: at each place
below the values some of the values observed there are merged (`mergedAt`), and others are left out, namely those of a
type that was there before the type changed, the elements of an array after the first, and all that is in them.  Where a
merge reads a name that is inherited no schema is learned.

* A value is accepted exactly when everything in it conforms to the values that were merged at its place: one of them
  has its type, and an object has the fields that all merged objects have (`accepts_iff`).
* So the values that are merged are always covered, and all observed values are covered exactly when those left out
  conform as well (`covers_iff_harmless`).
* Nothing is left out as long as no type changes and no array has a second element (`harmless_of_steady`).
-/

namespace Noda.Editor

/-! ### Places -/

/-- A step down into a value: to a property of an object, or to the elements of an array. -/
inductive Segment where
  | property (key : String)
  | item
  deriving DecidableEq, Repr

/-- The elements of an array. -/
def items : Json → List Json
  | .arr items => items
  | _ => []

/-- The values at a place that the schema of the place is learned from. -/
def mergedAt : List Segment → List Json → List Json
  | [], values => values
  | .property key :: place, values => mergedAt place (properties key (members .object values))
  | .item :: place, values => mergedAt place ((members .array values).filterMap firstItem)

/-- The parts of a value at a place. -/
def partsAt : List Segment → Json → List Json
  | [], value => [value]
  | .property key :: place, value => (ownProperty key value).toList.flatMap (partsAt place)
  | .item :: place, value => (items value).flatMap (partsAt place)

/-- A value is like those that are merged at its place: one of them has its type, and an object has the fields that
all merged objects have. -/
structure Conforms (merged : List Json) (value : Json) : Prop where
  type : ∃ v ∈ merged, typeOf v = typeOf value
  fields : typeOf value = .object → ∀ key, (∀ v ∈ members .object merged, v.field key ≠ none) → value.field key ≠ none

def Fits (values : List Json) (value : Json) : Prop :=
  ∀ place, mergedAt place values ≠ [] → ∀ part ∈ partsAt place value, Conforms (mergedAt place values) part

section Places

variable {values : List Json} {value : Json}

private theorem mergedAt_nil (place : List Segment) : mergedAt place [] = [] := by
  induction place with
  | nil => rfl
  | cons segment place ih =>
    cases segment with
    | property key => exact ih
    | item => exact ih

/-- A statement about all places, by the first step. -/
private theorem forall_place_iff {P : List Segment → Prop} : (∀ place, P place) ↔
    P [] ∧ (∀ key place, P (.property key :: place)) ∧ ∀ place, P (.item :: place) := by
  constructor
  · intro h
    exact ⟨h _, fun key place => h _, fun place => h _⟩
  · rintro ⟨hnil, hproperty, hitem⟩ place
    cases place with
    | nil => exact hnil
    | cons segment place =>
      cases segment with
      | property key => exact hproperty key place
      | item => exact hitem place

private theorem fits_nil (value : Json) : Fits [] value := fun place hsome => absurd (mergedAt_nil place) hsome

private theorem fits_iff (hne : values ≠ []) : Fits values value ↔ Conforms values value ∧
    (∀ key v, ownProperty key value = some v → Fits (properties key (members .object values)) v) ∧
    ∀ v ∈ items value, Fits ((members .array values).filterMap firstItem) v := by
  unfold Fits
  rw [forall_place_iff]
  refine and_congr ?_ (and_congr ?_ ?_)
  · simp [mergedAt, partsAt, hne]
  · refine forall_congr' fun key => ?_
    constructor
    · intro h v hv place hsome part hpart
      exact h place hsome part (by simpa [partsAt, hv] using hpart)
    · intro h place hsome part hpart
      rw [partsAt] at hpart
      obtain ⟨v, hv, hpart⟩ := List.mem_flatMap.1 hpart
      exact h v (Option.mem_toList.1 hv) place hsome part hpart
  · constructor
    · intro h v hv place hsome part hpart
      exact h place hsome part (List.mem_flatMap.2 ⟨v, hv, hpart⟩)
    · intro h place hsome part hpart
      obtain ⟨v, hv, hpart⟩ := List.mem_flatMap.1 hpart
      exact h v hv place hsome part hpart

private theorem members_ne_nil {type : SchemaType} : members type values ≠ [] ↔ ∃ v ∈ values, typeOf v = type := by
  rw [Ne, members_eq_nil]
  simp only [not_forall, not_not, exists_prop]

private theorem conforms_of_mem (h : value ∈ members (typeOf value) values) : Conforms values value where
  type := ⟨value, members_subset _ _ h, rfl⟩
  fields htype key hall := hall value (by rwa [htype] at h)

private theorem ownProperty_eq_some {key : String} {v : Json} :
    ownProperty key value = some v ↔ key ≠ "__proto__" ∧ value.field key = some v := by
  unfold ownProperty
  split_ifs with hproto
  · simp [hproto]
  · simp [hproto]

private theorem sizeOf_property_lt {key : String} {v : Json} (h : ownProperty key value = some v) :
    sizeOf v < sizeOf value := by
  have hfield := (ownProperty_eq_some.1 h).2
  cases value with
  | obj fields =>
    have hlt := List.sizeOf_lt_of_mem (Assoc.mem_of_lookup hfield)
    rw [Prod.mk.sizeOf_spec] at hlt
    rw [Json.obj.sizeOf_spec]
    omega
  | _ => cases hfield

private theorem sizeOf_item_lt {v : Json} (h : v ∈ items value) : sizeOf v < sizeOf value := by
  cases value with
  | arr items =>
    have hlt := List.sizeOf_lt_of_mem (show v ∈ items from h)
    rw [Json.arr.sizeOf_spec]
    omega
  | _ => cases h

private theorem mem_items_of_firstItem {v : Json} (h : firstItem value = some v) : v ∈ items value := by
  match value, h with
  | .arr (item :: rest), h =>
    obtain rfl := Option.some.inj h
    exact List.mem_cons_self

end Places

/-! ### Accepted values -/

section Accepted

variable {values : List Json} {value : Json} {schema : JSONSchema}

private theorem typeOf_of_property {key : String} {v : Json} (h : ownProperty key value = some v) :
    typeOf value = .object := by
  have hfield := (ownProperty_eq_some.1 h).2
  cases value with
  | obj fields => rfl
  | _ => cases hfield

private theorem typeOf_of_mem_items {v : Json} (h : v ∈ items value) : typeOf value = .array := by
  cases value with
  | arr items => rfl
  | _ => cases h

/-- Arrays that conform to the merged ones. -/
private theorem accepts_array_iff (hne : values ≠ []) (huniform : Uniform .array values)
    (hlearn : learnSchema values = some schema) (htype : typeOf value = .array)
    (ih : ∀ v ∈ items value, ∀ schema, learnSchema (values.filterMap firstItem) = some schema →
      (accepts schema v = true ↔ Fits (values.filterMap firstItem) v)) :
    accepts schema value = true ↔ ∀ v ∈ items value, Fits (values.filterMap firstItem) v := by
  rw [learnSchema_array hne huniform] at hlearn
  split_ifs at hlearn with hnil
  · obtain rfl := Option.some.inj hlearn
    rw [hnil]
    exact ⟨fun _ v _ => fits_nil v, fun _ => by simp [accepts, htype]⟩
  · obtain ⟨schema, hschema, rfl⟩ := Option.map_eq_some_iff.1 hlearn
    cases value with
    | arr elements =>
      rw [accepts, List.all_eq_true]
      exact forall₂_congr fun v hv => ih v hv schema hschema
    | _ => cases htype

/-- Objects that conform to the merged ones. -/
private theorem accepts_object_iff (huniform : Uniform .object values) (hlearn : learnSchema values = some schema)
    (htype : typeOf value = .object)
    (ih : ∀ key v, ownProperty key value = some v → ∀ schema, learnSchema (properties key values) = some schema →
      (accepts schema v = true ↔ Fits (properties key values) v)) :
    accepts schema value = true ↔ (∀ key, (∀ v ∈ values, v.field key ≠ none) → value.field key ≠ none) ∧
      ∀ key v, ownProperty key value = some v → Fits (properties key values) v := by
  obtain ⟨schemas, required, rfl, hlearned⟩ := learnSchema_object huniform hlearn
  obtain ⟨fields, rfl⟩ := exists_fields htype
  rw [accepts, Bool.and_eq_true, List.all_eq_true, acceptsProperties_iff hlearned.nodup]
  refine and_congr ?_ ?_
  · refine forall_congr' fun key => ?_
    rw [hlearned.mem_required, decide_eq_true_eq, mem_keys_iff, Json.field_obj]
  · constructor
    · intro h key v hv
      by_cases hnil : properties key values = []
      · rw [hnil]
        exact fits_nil v
      · obtain ⟨schema, hschema⟩ := Option.ne_none_iff_exists'.1 (hlearned.lookup_ne_none key hnil)
        have hfield : fields.lookup key = some v := (ownProperty_eq_some.1 hv).2
        exact (ih key v hv schema (hlearned.lookup_eq key ▸ hschema)).1 (h key schema v hschema hfield)
    · intro h key schema v hschema hfield
      rw [hlearned.lookup_eq] at hschema
      have hkey : key ≠ "__proto__" := by
        rintro rfl
        have hnil : properties "__proto__" values = [] := List.filterMap_eq_nil_iff.2 fun v _ => rfl
        rw [hnil] at hschema
        cases hschema
      have hv : ownProperty key (.obj fields) = some v := ownProperty_eq_some.2 ⟨hkey, hfield⟩
      exact (ih key v hv schema hschema).2 (h key v hv)

/-- A value is accepted exactly when all its parts conform to the values that were merged at their places. -/
theorem accepts_iff (value : Json) {values : List Json} {schema : JSONSchema} (h : learnSchema values = some schema) :
    accepts schema value = true ↔ Fits values value := by
  have hne : values ≠ [] := by
    rintro rfl
    cases h
  have hlearned := learned_of_learnSchema h
  rw [accepts_iff_variant hlearned.proper, fits_iff hne, hlearned.variant_eq]
  by_cases hmembers : members (typeOf value) values = []
  · have hnone : ¬Conforms values value := fun hconforms => members_ne_nil.2 hconforms.type hmembers
    rw [hmembers]
    constructor
    · rintro ⟨v, hv, -⟩
      cases hv
    · intro hfits
      exact absurd hfits.1 hnone
  · have hsome := hlearned.variant_ne_none _ hmembers
    rw [hlearned.variant_eq] at hsome
    obtain ⟨variant, hvariant⟩ := Option.ne_none_iff_exists'.1 hsome
    have huniform := uniform_members (typeOf value) values
    have hexists := members_ne_nil.1 hmembers
    have hunique : (∃ v, learnSchema (members (typeOf value) values) = some v ∧ accepts v value = true) ↔
        accepts variant value = true := by
      rw [hvariant]
      simp
    rw [hunique]
    cases htype : typeOf value with
    | primitive p =>
      have hobject : typeOf value ≠ .object := by simp [htype]
      have harray : typeOf value ≠ .array := by simp [htype]
      rw [htype] at hmembers huniform hvariant
      rw [learnSchema_primitive hmembers huniform] at hvariant
      obtain rfl := Option.some.inj hvariant
      refine ⟨fun _ => ⟨⟨hexists, fun h => absurd h hobject⟩, fun key v hv => ?_, fun v hv => ?_⟩, fun _ => ?_⟩
      · exact absurd (typeOf_of_property hv) hobject
      · exact absurd (typeOf_of_mem_items hv) harray
      · simp [accepts, htype]
    | array =>
      have hobject : typeOf value ≠ .object := by simp [htype]
      rw [htype] at hmembers huniform hvariant
      rw [accepts_array_iff hmembers huniform hvariant htype fun v hv schema hschema => accepts_iff v hschema]
      refine ⟨fun hitems => ⟨⟨hexists, fun h => absurd h hobject⟩, fun key v hv => ?_, hitems⟩, fun hfits => hfits.2.2⟩
      exact absurd (typeOf_of_property hv) hobject
    | object =>
      have harray : typeOf value ≠ .array := by simp [htype]
      rw [htype] at hmembers huniform hvariant
      rw [accepts_object_iff huniform hvariant htype fun key v hv schema hschema => accepts_iff v hschema]
      refine ⟨fun hparts => ⟨⟨hexists, fun _ => hparts.1⟩, hparts.2, fun v hv => ?_⟩, fun hfits => ?_⟩
      · exact absurd (typeOf_of_mem_items hv) harray
      · exact ⟨hfits.1.fields htype, hfits.2.1⟩
termination_by value
decreasing_by
  · exact sizeOf_item_lt hv
  · exact sizeOf_property_lt hv

end Accepted

/-! ### When a schema is learned -/

/-- No merge at any place reads a name that is inherited. -/
def ReadableBelow (values : List Json) : Prop := ∀ place, AllReadable (members .object (mergedAt place values))

section Learnable

variable {values : List Json}

private theorem readableBelow_nil : ReadableBelow [] := by
  intro place
  rw [mergedAt_nil]
  exact allReadable_nil

private theorem readableBelow_iff : ReadableBelow values ↔ AllReadable (members .object values) ∧
    (∀ key, ReadableBelow (properties key (members .object values))) ∧
    ReadableBelow ((members .array values).filterMap firstItem) := by
  unfold ReadableBelow
  rw [forall_place_iff]
  rfl

private theorem size_pos (value : Json) : 0 < sizeOf value := by
  cases value <;> simp only [Json.null.sizeOf_spec, Json.bool.sizeOf_spec, Json.num.sizeOf_spec, Json.str.sizeOf_spec,
    Json.arr.sizeOf_spec, Json.obj.sizeOf_spec] <;> omega

private theorem learnable_array (huniform : Uniform .array values)
    (h : values.filterMap firstItem ≠ [] →
      (learnSchema (values.filterMap firstItem) ≠ none ↔ ReadableBelow (values.filterMap firstItem))) :
    (values ≠ [] → learnSchema values ≠ none) ↔ ReadableBelow (values.filterMap firstItem) := by
  by_cases hitems : values.filterMap firstItem = []
  · rw [hitems]
    refine ⟨fun _ => readableBelow_nil, fun _ hne => ?_⟩
    rw [learnSchema_array hne huniform, if_pos hitems]
    exact Option.some_ne_none _
  · have hne : values ≠ [] := by
      rintro rfl
      exact hitems rfl
    have hlearn : learnSchema values ≠ none ↔ learnSchema (values.filterMap firstItem) ≠ none := by
      rw [learnSchema_array hne huniform, if_neg hitems, Ne, Option.map_eq_none_iff]
    rw [← h hitems, ← hlearn]
    exact ⟨fun himp => himp hne, fun hsome _ => hsome⟩

private theorem learnable_object (huniform : Uniform .object values)
    (h : ∀ key, properties key values ≠ [] →
      (learnSchema (properties key values) ≠ none ↔ ReadableBelow (properties key values))) :
    (values ≠ [] → learnSchema values ≠ none) ↔
      AllReadable values ∧ ∀ key, ReadableBelow (properties key values) := by
  by_cases hne : values = []
  · subst hne
    exact ⟨fun _ => ⟨allReadable_nil, fun key => readableBelow_nil⟩, fun _ hne => absurd rfl hne⟩
  · rw [learnSchema_object_ne_none_iff hne huniform]
    constructor
    · intro himp
      obtain ⟨hreadable, hnested⟩ := himp hne
      refine ⟨hreadable, fun key => ?_⟩
      by_cases hnil : properties key values = []
      · rw [hnil]
        exact readableBelow_nil
      · exact (h key hnil).1 (hnested key hnil)
    · rintro ⟨hreadable, hnested⟩ -
      exact ⟨hreadable, fun key hsome => (h key hsome).2 (hnested key)⟩

/-- A schema is learned exactly when no merge reads a name that is inherited. -/
private theorem learnSchema_ne_none_iff_readable (size : Nat) (hne : values ≠ [])
    (hsize : ∀ v ∈ values, sizeOf v ≤ size) :
    learnSchema values ≠ none ↔ ReadableBelow values := by
  induction size generalizing values with
  | zero =>
    obtain ⟨value, rest, rfl⟩ := List.exists_cons_of_ne_nil hne
    have hle := hsize value List.mem_cons_self
    have hpos := size_pos value
    omega
  | succ size ih =>
    have harray := learnable_array (uniform_members .array values) fun hsome => ih hsome fun v hv => by
      obtain ⟨value, hvalue, hfirst⟩ := List.mem_filterMap.1 hv
      have hle := hsize value (members_subset _ _ hvalue)
      have hlt := sizeOf_item_lt (mem_items_of_firstItem hfirst)
      omega
    have hobject := learnable_object (uniform_members .object values) fun key hsome => ih hsome fun v hv => by
      obtain ⟨value, hvalue, hproperty⟩ := List.mem_filterMap.1 hv
      have hle := hsize value (members_subset _ _ hvalue)
      have hlt := sizeOf_property_lt hproperty
      omega
    rw [learnSchema_ne_none_iff hne, readableBelow_iff, ← harray, ← and_assoc, ← hobject]
    constructor
    · intro h
      exact ⟨h .object, h .array⟩
    · rintro ⟨hobjects, harrays⟩ type hsome
      cases type with
      | primitive p =>
        rw [learnSchema_primitive hsome (uniform_members _ _)]
        exact Option.some_ne_none _
      | array => exact harrays hsome
      | object => exact hobjects hsome

end Learnable

/-! ### Coverage -/

mutual

/-- Each element of an array, at any depth, is accepted by the schema of the first one. -/
def conformingArrays : Json → Bool
  | .arr elements =>
    (elements.head?.all fun first => elements.all fun value => accepts (inferSchema first) value) &&
      conformingItems elements
  | .obj fields => conformingFields fields
  | _ => true

def conformingItems : List Json → Bool
  | [] => true
  | value :: values => conformingArrays value && conformingItems values

def conformingFields : List (String × Json) → Bool
  | [] => true
  | (_, value) :: fields => conformingArrays value && conformingFields fields

end

def covers (values : List Json) : Bool :=
  (learnSchema values).any fun schema => values.all fun value => accepts schema value

/-- What is observed does no harm: no merge reads an inherited name, and what is not merged conforms to what is. -/
structure Harmless (values : List Json) : Prop where
  readable : ReadableBelow values
  leftOut : ∀ place, mergedAt place values ≠ [] → ∀ value ∈ values, ∀ part ∈ partsAt place value,
    part ∉ members (typeOf part) (mergedAt place values) → Conforms (mergedAt place values) part

/-- The type changes at no place, and no array has a second element. -/
structure Steady (values : List Json) : Prop where
  uniform : ∀ place, ∃ type, Uniform type (mergedAt place values)
  single : ∀ place, ∀ value ∈ mergedAt place values, (items value).length ≤ 1

theorem Steady.members_eq {values : List Json} {value : Json} (h : Steady values) (hvalue : value ∈ values) :
    members (typeOf value) values = values := by
  obtain ⟨type, huniform⟩ := h.uniform []
  have htype : typeOf value = type := huniform value hvalue
  subst htype
  exact members_of_uniform huniform

private theorem firstItem_of_single {value v : Json} (hlength : (items value).length ≤ 1) (hv : v ∈ items value) :
    firstItem value = some v := by
  cases value with
  | arr elements =>
    cases elements with
    | nil => cases hv
    | cons first rest =>
      have hrest : rest = [] := by
        rw [items, List.length_cons] at hlength
        exact List.length_eq_zero_iff.1 (by omega)
      rw [hrest] at hv
      rw [List.mem_singleton.1 hv]
      rfl
  | _ => cases hv

theorem Steady.mem_mergedAt {values : List Json} {value part : Json} {place : List Segment} (h : Steady values)
    (hvalue : value ∈ values) (hpart : part ∈ partsAt place value) : part ∈ mergedAt place values := by
  induction place generalizing values value with
  | nil =>
    rw [List.mem_singleton.1 hpart]
    exact hvalue
  | cons segment place ih =>
    have hmembers := h.members_eq hvalue
    cases segment with
    | property key =>
      obtain ⟨v, hv, hpart⟩ := List.mem_flatMap.1 hpart
      have hown : ownProperty key value = some v := Option.mem_toList.1 hv
      rw [typeOf_of_property hown] at hmembers
      refine ih ⟨fun place => h.uniform (.property key :: place),
        fun place => h.single (.property key :: place)⟩ ?_ hpart
      rw [hmembers]
      exact List.mem_filterMap.2 ⟨value, hvalue, hown⟩
    | item =>
      obtain ⟨v, hv, hpart⟩ := List.mem_flatMap.1 hpart
      rw [typeOf_of_mem_items hv] at hmembers
      refine ih ⟨fun place => h.uniform (.item :: place), fun place => h.single (.item :: place)⟩ ?_ hpart
      rw [hmembers]
      exact List.mem_filterMap.2 ⟨value, hvalue, firstItem_of_single (h.single [] value hvalue) hv⟩

theorem harmless_of_steady {values : List Json} (hreadable : ReadableBelow values) (h : Steady values) :
    Harmless values := by
  refine ⟨hreadable, fun place _ value hvalue part hpart hleft => absurd ?_ hleft⟩
  have hmerged := h.mem_mergedAt hvalue hpart
  obtain ⟨type, huniform⟩ := h.uniform place
  have htype : typeOf part = type := huniform part hmerged
  subst htype
  rw [members_of_uniform huniform]
  exact hmerged

/-- The values are covered exactly when those that are not merged conform to those that are. -/
theorem covers_iff_harmless (value : Json) (values : List Json) :
    covers (value :: values) = true ↔ Harmless (value :: values) := by
  have hlearnable : learnSchema (value :: values) ≠ none ↔ ReadableBelow (value :: values) :=
    learnSchema_ne_none_iff_readable (sizeOf (value :: values)) (List.cons_ne_nil _ _)
      fun v hv => (List.sizeOf_lt_of_mem hv).le
  unfold covers
  rw [Option.any_eq_true]
  constructor
  · rintro ⟨schema, hschema, hall⟩
    refine ⟨hlearnable.1 (by rw [hschema]; exact Option.some_ne_none _), fun place hsome v hv part hpart _ => ?_⟩
    exact (accepts_iff v hschema).1 (List.all_eq_true.1 hall v hv) place hsome part hpart
  · rintro ⟨hreadable, hleft⟩
    obtain ⟨schema, hschema⟩ := Option.ne_none_iff_exists'.1 (hlearnable.2 hreadable)
    refine ⟨schema, hschema, List.all_eq_true.2 fun v hv => (accepts_iff v hschema).2 ?_⟩
    intro place hsome part hpart
    by_cases hmem : part ∈ members (typeOf part) (mergedAt place (value :: values))
    · exact conforms_of_mem hmem
    · exact hleft place hsome v hv part hpart hmem

/-- An object, a string, and an object that has none of the fields of the first one. -/
def alternating : List Json := [.obj [("a", .num 1)], .str "x", .obj [("b", .num 2)]]

/-- The third value is not merged with the first one, and the schema rejects it. -/
theorem alternating_not_covered : (alternating.all fun value => conformingArrays value) = true ∧
    covers alternating = false := by decide

-- the elements of an array after the first are not merged either, here with the `b` of another array
example : covers [.arr [.obj [("a", .num 1)], .obj [("a", .num 1), ("b", .str "s")]],
    .arr [.obj [("a", .num 1), ("b", .num 2)]]] = false := by decide

-- a type that changes is no harm as long as the later values of an earlier type have its fields
example : covers [.obj [("a", .num 1)], .str "x", .obj [("a", .num 2), ("b", .null)]] = true := by decide

end Noda.Editor
