import Mathlib.Data.List.Chain
import Mathlib.Logic.Relation
import Noda.Config.Merge
import Noda.Config.SchemaRegistry
import Noda.Lib.Strconv

/-!
# References to schemas

`resolveRefsInValue` replaces each object with a string under `$ref` by the schema of that name, in which it replaces
the references in the same way; the other fields of such an object are dropped.  The names on the way are kept, and a
name that comes again is an error.  The registry is only read.

Every step into a schema leaves one registered name less that can come, which is why the recursion ends for every
registry.  `resolveRefsInValue_spec`: there is no error exactly if every name that is reached is registered and no
chain of references repeats a name, and then the result is the full unfolding of the value (`Unfolds`).
-/

namespace Noda.Config

open Json (Fields)

/-- A map as a value. -/
def ofMap (m : AnyMap) : Json := .obj m.toPairs

/-- The name under `$ref` of an object. -/
def refOf (fields : Fields) : Option String := (fields.lookup "$ref").bind Json.asStr

/-- A value and the errors on the way to it; without one the value is `nil`. -/
abbrev Resolved := Json × List ValidationError

mutual

/-- The walk of `resolveRefsInValue`, with `ref` for the names. -/
def resolveValue (ref : String → Resolved) : Json → Resolved
  | .obj val =>
    match refOf val with
    | some refStr => ref refStr
    | none =>
      let r := resolveFields ref val
      (.obj r.1, r.2)
  | .arr val =>
    let r := resolveItems ref val
    (.arr r.1, r.2)
  | v => (v, [])

def resolveFields (ref : String → Resolved) : Fields → Fields × List ValidationError
  | [] => ([], [])
  | (k, child) :: val =>
    let r := resolveValue ref child
    let rest := resolveFields ref val
    ((k, r.1) :: rest.1, r.2 ++ rest.2)

def resolveItems (ref : String → Resolved) : List Json → List Json × List ValidationError
  | [] => ([], [])
  | item :: val =>
    let r := resolveValue ref item
    let rest := resolveItems ref val
    (r.1 :: rest.1, r.2 ++ rest.2)

end

def circularError (filePath : String) (cycle : List String) : ValidationError where
  filePath := filePath
  message := "circular $ref detected: " ++ " → ".intercalate cycle

def unresolvedError (registry : GoMap AnyMap) (filePath name : String) : ValidationError where
  filePath := filePath
  message :=
    let known := sortStrings registry.keys
    let knownList := if known = [] then "none" else ", ".intercalate known
    "unresolved $ref " ++ name.goQuote ++ " (known refs: " ++ knownList ++
    " — a schemas/ file maps each top-level key to a schema, registered as schemas/<Key>; " ++
    "a file that is itself a JSON Schema registers as schemas/<filename without .json>)"

/-- The registered names that have not been seen. -/
def unseen (registry : GoMap AnyMap) (seen : List String) : Nat := (registry.keys.filter (· ∉ seen)).length

private theorem unseen_append_lt {registry : GoMap AnyMap} {seen : List String} {refName : String} {schema : AnyMap}
    (hseen : refName ∉ seen) (hlookup : registry.lookup refName = some schema) :
    unseen registry (seen ++ [refName]) < unseen registry seen := by
  have hsub : registry.keys.filter (· ∉ seen ++ [refName]) =
      (registry.keys.filter (· ∉ seen)).filter (· ≠ refName) := by
    rw [List.filter_filter]
    refine List.filter_congr fun name _ => ?_
    simp [and_comm]
  have hmem : refName ∈ registry.keys.filter (· ∉ seen) :=
    List.mem_filter.2 ⟨AList.mem_keys.1 (AList.mem_of_lookup hlookup), decide_eq_true hseen⟩
  rw [unseen, unseen, hsub]
  exact List.length_filter_lt_length_iff_exists.2 ⟨refName, hmem, by simp⟩

def resolveRef (registry : GoMap AnyMap) (filePath : String) (seen : List String) (refName : String) : Resolved :=
  if hseen : refName ∈ seen then (.null, [circularError filePath (seen ++ [refName])])
  else
    match hlookup : registry.lookup refName with
    | none => (.null, [unresolvedError registry filePath refName])
    | some schema =>
      have := unseen_append_lt hseen hlookup
      resolveValue (fun name => resolveRef registry filePath (seen ++ [refName]) name) (deepCopy (ofMap schema))
termination_by unseen registry seen

def resolveRefsInValue (registry : GoMap AnyMap) (filePath : String) (seen : List String) (v : Json) : Resolved :=
  resolveValue (resolveRef registry filePath seen) v

section

variable {registry : GoMap AnyMap} {filePath : String} {seen : List String} {refName : String} {schema : AnyMap}

theorem resolveRef_seen (h : refName ∈ seen) :
    resolveRef registry filePath seen refName = (.null, [circularError filePath (seen ++ [refName])]) := by
  rw [resolveRef, dif_pos h]

theorem resolveRef_unregistered (h : refName ∉ seen) (hlookup : registry.lookup refName = none) :
    resolveRef registry filePath seen refName = (.null, [unresolvedError registry filePath refName]) := by
  rw [resolveRef, dif_neg h]
  split
  · rfl
  · rename_i hsome
    rw [hlookup] at hsome
    cases hsome

theorem resolveRef_registered (h : refName ∉ seen) (hlookup : registry.lookup refName = some schema) :
    resolveRef registry filePath seen refName =
      resolveRefsInValue registry filePath (seen ++ [refName]) (ofMap schema) := by
  rw [resolveRef, dif_neg h]
  split
  · rename_i hnone
    rw [hlookup] at hnone
    cases hnone
  · rename_i hsome
    rw [hlookup] at hsome
    cases hsome
    rw [deepCopy_eq]
    rfl

/-- A reference is resolved after the references in its schema. -/
theorem resolveRef_induction (registry : GoMap AnyMap) {P : List String → String → Prop}
    (hseen : ∀ seen refName, refName ∈ seen → P seen refName)
    (hnone : ∀ seen refName, refName ∉ seen → registry.lookup refName = none → P seen refName)
    (hsome : ∀ seen refName schema, refName ∉ seen → registry.lookup refName = some schema →
      (∀ name, P (seen ++ [refName]) name) → P seen refName)
    (seen : List String) (refName : String) : P seen refName := by
  by_cases h : refName ∈ seen
  · exact hseen seen refName h
  · cases hlookup : registry.lookup refName with
    | none => exact hnone seen refName h hlookup
    | some schema =>
      have := unseen_append_lt h hlookup
      exact hsome seen refName schema h hlookup fun name =>
        resolveRef_induction registry hseen hnone hsome (seen ++ [refName]) name
termination_by unseen registry seen

end

/-! ### What is reached -/

/-- The value has a reference to the name.  What else stands beside a `$ref` is not part of the value. -/
inductive HasRef : Json → String → Prop where
  | here {fields name} : refOf fields = some name → HasRef (.obj fields) name
  | field {fields e name} : refOf fields = none → e ∈ fields → HasRef e.2 name → HasRef (.obj fields) name
  | item {items v name} : v ∈ items → HasRef v name → HasRef (.arr items) name

def Step (registry : GoMap AnyMap) (name name' : String) : Prop :=
  ∃ schema, registry.lookup name = some schema ∧ HasRef (ofMap schema) name'

/-- The name is reached from the value through the registry. -/
def Reaches (registry : GoMap AnyMap) (v : Json) (name : String) : Prop :=
  ∃ first, HasRef v first ∧ Relation.ReflTransGen (Step registry) first name

/-- The names of a chain of references from the value. -/
def RefChain (registry : GoMap AnyMap) (v : Json) (names : List String) : Prop :=
  (∀ first ∈ names.head?, HasRef v first) ∧ names.IsChain (Step registry)

mutual

theorem resolveValue_ok (ref : String → Resolved) : ∀ v,
    (resolveValue ref v).2 = [] ↔ ∀ name, HasRef v name → (ref name).2 = []
  | .null | .bool _ | .num _ | .str _ => by
    refine iff_of_true rfl ?_
    rintro name ⟨⟩
  | .arr items => by
    rw [resolveValue]
    dsimp only
    rw [resolveItems_ok ref items]
    constructor
    · rintro h name (_ | _ | ⟨hv, href⟩)
      exact h name _ hv href
    · exact fun h name v hv href => h name (.item hv href)
  | .obj fields => by
    rw [resolveValue]
    cases hname : refOf fields with
    | some refStr =>
      dsimp only
      constructor
      · rintro h name (hname' | ⟨hnone, -, -⟩)
        · rw [hname, Option.some.injEq] at hname'
          exact hname' ▸ h
        · rw [hname] at hnone
          cases hnone
      · exact fun h => h refStr (.here hname)
    | none =>
      dsimp only
      rw [resolveFields_ok ref fields]
      constructor
      · rintro h name (hname' | ⟨-, he, href⟩)
        · rw [hname] at hname'
          cases hname'
        · exact h name _ he href
      · exact fun h name e he href => h name (.field hname he href)

theorem resolveFields_ok (ref : String → Resolved) : ∀ fields : Fields,
    (resolveFields ref fields).2 = [] ↔ ∀ name, ∀ e ∈ fields, HasRef e.2 name → (ref name).2 = []
  | [] => by simp [resolveFields]
  | (k, child) :: fields => by
    rw [resolveFields]
    dsimp only
    rw [List.append_eq_nil_iff, resolveValue_ok ref child, resolveFields_ok ref fields]
    simp only [List.forall_mem_cons, forall_and]

theorem resolveItems_ok (ref : String → Resolved) : ∀ items : List Json,
    (resolveItems ref items).2 = [] ↔ ∀ name, ∀ v ∈ items, HasRef v name → (ref name).2 = []
  | [] => by simp [resolveItems]
  | item :: items => by
    rw [resolveItems]
    dsimp only
    rw [List.append_eq_nil_iff, resolveValue_ok ref item, resolveItems_ok ref items]
    simp only [List.forall_mem_cons, forall_and]

end

private theorem resolveRef_ok (registry : GoMap AnyMap) (filePath : String) (seen : List String) (refName : String) :
    seen.Nodup → ((resolveRef registry filePath seen refName).2 = [] ↔
      (∀ name, Relation.ReflTransGen (Step registry) refName name → name ∈ registry) ∧
        ∀ names, (refName :: names).IsChain (Step registry) → (seen ++ refName :: names).Nodup) := by
  induction seen, refName using resolveRef_induction registry with
  | hseen seen refName h =>
    intro _
    rw [resolveRef_seen h]
    refine iff_of_false (List.cons_ne_nil _ _) fun hclear => ?_
    have hnodup := hclear.2 [] (List.isChain_singleton _)
    exact absurd h (List.disjoint_right.1 (List.disjoint_of_nodup_append hnodup) List.mem_cons_self)
  | hnone seen refName h hlookup =>
    intro _
    rw [resolveRef_unregistered h hlookup]
    refine iff_of_false (List.cons_ne_nil _ _) fun hclear => ?_
    exact AList.lookup_eq_none.1 hlookup (hclear.1 refName .refl)
  | hsome seen refName schema h hlookup ih =>
    intro hseen
    have hseen' : (seen ++ [refName]).Nodup := by
      refine List.nodup_append.2 ⟨hseen, List.nodup_singleton _, fun a ha b hb heq => h ?_⟩
      rwa [← List.mem_singleton.1 hb, ← heq]
    have hstep {name : String} : Step registry refName name ↔ HasRef (ofMap schema) name := by
      constructor
      · rintro ⟨schema', hlookup', href⟩
        rw [hlookup] at hlookup'
        cases hlookup'
        exact href
      · exact fun href => ⟨schema, hlookup, href⟩
    rw [resolveRef_registered h hlookup, resolveRefsInValue, resolveValue_ok]
    constructor
    · intro hrefs
      refine ⟨fun name hreach => ?_, fun names hchain => ?_⟩
      · rcases Relation.ReflTransGen.cases_head hreach with rfl | ⟨next, hnext, hreach⟩
        · exact AList.mem_of_lookup hlookup
        · exact ((ih next hseen').1 (hrefs next (hstep.1 hnext))).1 name hreach
      · cases names with
        | nil => exact hseen'
        | cons next names =>
          obtain ⟨hnext, hchain⟩ := List.isChain_cons_cons.1 hchain
          have hnodup := ((ih next hseen').1 (hrefs next (hstep.1 hnext))).2 names hchain
          rwa [List.append_assoc] at hnodup
    · rintro ⟨hreach, hchains⟩ next href
      have hnext := hstep.2 href
      refine (ih next hseen').2 ⟨fun name h => hreach name (.head hnext h), fun names hchain => ?_⟩
      rw [List.append_assoc]
      exact hchains (next :: names) (List.isChain_cons_cons.2 ⟨hnext, hchain⟩)

theorem resolveRefsInValue_ok (registry : GoMap AnyMap) (filePath : String) (v : Json) :
    (resolveRefsInValue registry filePath [] v).2 = [] ↔
      (∀ name, Reaches registry v name → name ∈ registry) ∧ ∀ names, RefChain registry v names → names.Nodup := by
  rw [resolveRefsInValue, resolveValue_ok]
  simp only [resolveRef_ok registry filePath [] _ List.nodup_nil, List.nil_append]
  constructor
  · intro h
    refine ⟨?_, ?_⟩
    · rintro name ⟨first, href, hreach⟩
      exact (h first href).1 name hreach
    · rintro names ⟨hfirst, hchain⟩
      cases names with
      | nil => exact List.nodup_nil
      | cons first names => exact (h first (hfirst first rfl)).2 names hchain
  · rintro ⟨hreach, hchains⟩ first href
    refine ⟨fun name h => hreach name ⟨first, href, h⟩, fun names hchain => hchains _ ⟨?_, hchain⟩⟩
    rintro name ⟨⟩
    exact href

/-! ### The unfolding -/

/-- A value without parts. -/
def IsScalar (v : Json) : Prop := (∀ items, v ≠ .arr items) ∧ ∀ fields, v ≠ .obj fields

mutual

/-- The value with the unfolded schema in the place of each reference. -/
inductive Unfolds (registry : GoMap AnyMap) : Json → Json → Prop where
  | scalar {v} : IsScalar v → Unfolds registry v v
  | arr {items items'} : UnfoldsItems registry items items' → Unfolds registry (.arr items) (.arr items')
  | obj {fields fields'} : refOf fields = none → UnfoldsFields registry fields fields' →
      Unfolds registry (.obj fields) (.obj fields')
  | ref {fields name schema w} : refOf fields = some name → registry.lookup name = some schema →
      Unfolds registry (ofMap schema) w → Unfolds registry (.obj fields) w

inductive UnfoldsItems (registry : GoMap AnyMap) : List Json → List Json → Prop where
  | nil : UnfoldsItems registry [] []
  | cons {v w items items'} : Unfolds registry v w → UnfoldsItems registry items items' →
      UnfoldsItems registry (v :: items) (w :: items')

inductive UnfoldsFields (registry : GoMap AnyMap) : Fields → Fields → Prop where
  | nil : UnfoldsFields registry [] []
  | cons {k v w fields fields'} : Unfolds registry v w → UnfoldsFields registry fields fields' →
      UnfoldsFields registry ((k, v) :: fields) ((k, w) :: fields')

end

def UnfoldsName (registry : GoMap AnyMap) (name : String) (w : Json) : Prop :=
  ∃ schema, registry.lookup name = some schema ∧ Unfolds registry (ofMap schema) w

/-- `ref` gives the unfoldings of the names. -/
def Unfolding (registry : GoMap AnyMap) (ref : String → Resolved) (v : Json) : Prop :=
  ∀ name, HasRef v name → ∀ w, UnfoldsName registry name w ↔ w = (ref name).1

section

variable {registry : GoMap AnyMap} {ref : String → Resolved}

private theorem unfolds_scalar {v w : Json} (h : IsScalar v) : Unfolds registry v w ↔ w = v := by
  constructor
  · intro hv
    cases hv with
    | scalar => rfl
    | arr => exact absurd rfl (h.1 _)
    | obj => exact absurd rfl (h.2 _)
    | ref => exact absurd rfl (h.2 _)
  · rintro rfl
    exact .scalar h

mutual

theorem unfolds_iff : ∀ {v}, Unfolding registry ref v → ∀ w, Unfolds registry v w ↔ w = (resolveValue ref v).1
  | .null, _, w | .bool _, _, w | .num _, _, w | .str _, _, w => by
    rw [unfolds_scalar (by simp [IsScalar]), resolveValue]
    all_goals simp
  | .arr items, hrefs, w => by
    have hitems (items') : UnfoldsItems registry items items' ↔ items' = (resolveItems ref items).1 :=
      unfoldsItems_iff (fun v hv name href => hrefs name (.item hv href)) items'
    rw [resolveValue]
    constructor
    · rintro (hscalar | h | _ | _)
      · exact absurd rfl (hscalar.1 items)
      · rw [(hitems _).1 h]
    · rintro rfl
      exact .arr ((hitems _).2 rfl)
  | .obj fields, hrefs, w => by
    rw [resolveValue]
    cases hname : refOf fields with
    | some refStr =>
      dsimp only
      rw [← hrefs refStr (.here hname)]
      constructor
      · rintro (hscalar | _ | ⟨hnone, -⟩ | ⟨hsome, hlookup, h⟩)
        · exact absurd rfl (hscalar.2 fields)
        · rw [hname] at hnone
          cases hnone
        · rw [hname] at hsome
          cases hsome
          exact ⟨_, hlookup, h⟩
      · rintro ⟨schema, hlookup, h⟩
        exact .ref hname hlookup h
    | none =>
      have hfields (fields') : UnfoldsFields registry fields fields' ↔ fields' = (resolveFields ref fields).1 :=
        unfoldsFields_iff (fun e he name href => hrefs name (.field hname he href)) fields'
      dsimp only
      constructor
      · rintro (hscalar | _ | ⟨-, h⟩ | ⟨hsome, -, -⟩)
        · exact absurd rfl (hscalar.2 fields)
        · rw [(hfields _).1 h]
        · rw [hname] at hsome
          cases hsome
      · rintro rfl
        exact .obj hname ((hfields _).2 rfl)

theorem unfoldsItems_iff : ∀ {items : List Json}, (∀ v ∈ items, Unfolding registry ref v) →
    ∀ items', UnfoldsItems registry items items' ↔ items' = (resolveItems ref items).1
  | [], _, items' => by
    rw [resolveItems]
    constructor
    · rintro ⟨⟩
      rfl
    · rintro rfl
      exact .nil
  | item :: items, hrefs, items' => by
    obtain ⟨hitem, hrest⟩ := List.forall_mem_cons.1 hrefs
    rw [resolveItems]
    constructor
    · rintro (_ | ⟨h, h'⟩)
      rw [(unfolds_iff hitem _).1 h, (unfoldsItems_iff hrest _).1 h']
    · rintro rfl
      exact .cons ((unfolds_iff hitem _).2 rfl) ((unfoldsItems_iff hrest _).2 rfl)

theorem unfoldsFields_iff : ∀ {fields : Fields}, (∀ e ∈ fields, Unfolding registry ref e.2) →
    ∀ fields', UnfoldsFields registry fields fields' ↔ fields' = (resolveFields ref fields).1
  | [], _, fields' => by
    rw [resolveFields]
    constructor
    · rintro ⟨⟩
      rfl
    · rintro rfl
      exact .nil
  | (k, child) :: fields, hrefs, fields' => by
    obtain ⟨hchild, hrest⟩ := List.forall_mem_cons.1 hrefs
    rw [resolveFields]
    constructor
    · rintro (_ | ⟨h, h'⟩)
      rw [(unfolds_iff hchild _).1 h, (unfoldsFields_iff hrest _).1 h']
    · rintro rfl
      exact .cons ((unfolds_iff hchild _).2 rfl) ((unfoldsFields_iff hrest _).2 rfl)

end

end

private theorem resolveRef_unfolds (registry : GoMap AnyMap) (filePath : String) (seen : List String)
    (refName : String) :
    (resolveRef registry filePath seen refName).2 = [] →
      ∀ w, UnfoldsName registry refName w ↔ w = (resolveRef registry filePath seen refName).1 := by
  induction seen, refName using resolveRef_induction registry with
  | hseen seen refName h =>
    rw [resolveRef_seen h]
    exact fun herrs => absurd herrs (List.cons_ne_nil _ _)
  | hnone seen refName h hlookup =>
    rw [resolveRef_unregistered h hlookup]
    exact fun herrs => absurd herrs (List.cons_ne_nil _ _)
  | hsome seen refName schema h hlookup ih =>
    rw [resolveRef_registered h hlookup, resolveRefsInValue, resolveValue_ok]
    intro hrefs w
    rw [← unfolds_iff fun name href => ih name (hrefs name href)]
    constructor
    · rintro ⟨schema', hlookup', hw⟩
      rw [hlookup] at hlookup'
      cases hlookup'
      exact hw
    · exact fun hw => ⟨schema, hlookup, hw⟩

/-! ### No reference is left -/

mutual

/-- No object in the value has a string under `$ref`. -/
def refFree : Json → Bool
  | .obj fields => (refOf fields).isNone && refFreeFields fields
  | .arr items => refFreeItems items
  | _ => true

def refFreeFields : Fields → Bool
  | [] => true
  | (_, v) :: fields => refFree v && refFreeFields fields

def refFreeItems : List Json → Bool
  | [] => true
  | v :: items => refFree v && refFreeItems items

end

/-- `ref` gives values without references, and no strings. -/
def Freeing (ref : String → Resolved) (v : Json) : Prop :=
  ∀ name, HasRef v name → refFree (ref name).1 = true ∧ (ref name).1.asStr = none

private theorem lookup_resolveFields (ref : String → Resolved) (fields : Fields) (key : String) :
    (resolveFields ref fields).1.lookup key = (fields.lookup key).map fun v => (resolveValue ref v).1 := by
  induction fields with
  | nil => simp [resolveFields]
  | cons e fields ih =>
    obtain ⟨k, child⟩ := e
    rw [resolveFields]
    dsimp only
    rw [List.lookup_cons, List.lookup_cons, ih]
    cases key == k with
    | true => rfl
    | false => rfl

private theorem asStr_resolveValue {ref : String → Resolved} {v : Json} (h : Freeing ref v) (hv : v.asStr = none) :
    (resolveValue ref v).1.asStr = none := by
  cases v with
  | str s => cases hv
  | obj fields =>
    rw [resolveValue]
    cases hname : refOf fields with
    | some refStr => exact (h refStr (.here hname)).2
    | none => rfl
  | _ => rfl

private theorem refOf_resolveFields {ref : String → Resolved} {fields : Fields} (h : Freeing ref (.obj fields))
    (hname : refOf fields = none) : refOf (resolveFields ref fields).1 = none := by
  rw [refOf, lookup_resolveFields]
  cases hlookup : fields.lookup "$ref" with
  | none => rfl
  | some v =>
    have hv : v.asStr = none := by
      rw [refOf, hlookup] at hname
      exact hname
    have hmem : ("$ref", v) ∈ fields := Assoc.mem_of_lookup hlookup
    exact asStr_resolveValue (fun name href => h name (.field (e := ("$ref", v)) hname hmem href)) hv

mutual

theorem refFree_resolveValue {ref : String → Resolved} : ∀ {v}, Freeing ref v → refFree (resolveValue ref v).1 = true
  | .null, _ | .bool _, _ | .num _, _ | .str _, _ => rfl
  | .arr items, h => by
    rw [resolveValue, refFree]
    exact refFree_resolveItems fun v hv name href => h name (.item hv href)
  | .obj fields, h => by
    rw [resolveValue]
    cases hname : refOf fields with
    | some refStr => exact (h refStr (.here hname)).1
    | none =>
      dsimp only
      rw [refFree, refOf_resolveFields h hname, Option.isNone_none, Bool.true_and]
      exact refFree_resolveFields fun e he name href => h name (.field hname he href)

theorem refFree_resolveFields {ref : String → Resolved} : ∀ {fields : Fields}, (∀ e ∈ fields, Freeing ref e.2) →
    refFreeFields (resolveFields ref fields).1 = true
  | [], _ => rfl
  | (k, child) :: fields, h => by
    obtain ⟨hchild, hrest⟩ := List.forall_mem_cons.1 h
    rw [resolveFields, refFreeFields, refFree_resolveValue hchild, refFree_resolveFields hrest, Bool.true_and]

theorem refFree_resolveItems {ref : String → Resolved} : ∀ {items : List Json}, (∀ v ∈ items, Freeing ref v) →
    refFreeItems (resolveItems ref items).1 = true
  | [], _ => rfl
  | item :: items, h => by
    obtain ⟨hitem, hrest⟩ := List.forall_mem_cons.1 h
    rw [resolveItems, refFreeItems, refFree_resolveValue hitem, refFree_resolveItems hrest, Bool.true_and]

end

/-- A name is resolved to a value without references, with `nil` where there is an error. -/
private theorem resolveRef_refFree (registry : GoMap AnyMap) (filePath : String) (seen : List String)
    (refName : String) :
    refFree (resolveRef registry filePath seen refName).1 = true ∧
      (resolveRef registry filePath seen refName).1.asStr = none := by
  induction seen, refName using resolveRef_induction registry with
  | hseen seen refName h =>
    rw [resolveRef_seen h]
    exact ⟨rfl, rfl⟩
  | hnone seen refName h hlookup =>
    rw [resolveRef_unregistered h hlookup]
    exact ⟨rfl, rfl⟩
  | hsome seen refName schema h hlookup ih =>
    rw [resolveRef_registered h hlookup, resolveRefsInValue]
    exact ⟨refFree_resolveValue fun name _ => ih name, asStr_resolveValue (fun name _ => ih name) rfl⟩

theorem resolveRefsInValue_spec (registry : GoMap AnyMap) (filePath : String) (v : Json) :
    ((resolveRefsInValue registry filePath [] v).2 = [] ↔
      (∀ name, Reaches registry v name → name ∈ registry) ∧ ∀ names, RefChain registry v names → names.Nodup) ∧
    ((resolveRefsInValue registry filePath [] v).2 = [] →
      refFree (resolveRefsInValue registry filePath [] v).1 = true ∧
        ∀ w, Unfolds registry v w ↔ w = (resolveRefsInValue registry filePath [] v).1) := by
  refine ⟨resolveRefsInValue_ok registry filePath v, fun h => ⟨?_, ?_⟩⟩
  · exact refFree_resolveValue fun name _ => resolveRef_refFree registry filePath [] name
  · rw [resolveRefsInValue, resolveValue_ok] at h
    exact unfolds_iff fun name href => resolveRef_unfolds registry filePath [] name (h name href)

end Noda.Config
