import Noda.Config.Refs

/-!
# References in the config

`ResolveRefs` builds the registry and resolves the references in every file of every section.  It takes for granted that
a resolved file is still an object.  That is so unless the file itself is a reference that fails: then the resolved file
is `nil` and the type assertion panics.

`resolveRefs_iff`: the errors are returned, and there is one exactly if the registry is invalid or some reference fails,
exactly if each file that is a reference leads to a schema that is none (`Grounded`).
-/

namespace Noda.Config

/-- The sections whose files may have references. -/
inductive SectionKind where
  | routes
  | workflows
  | workers
  | schedules
  | connections
  | tests
  | models
  deriving DecidableEq

/-- The sections in the order in which they are resolved. -/
def SectionKind.all : List SectionKind := [.routes, .workflows, .workers, .schedules, .connections, .tests, .models]

structure RawConfig where
  schemas : Section
  sections : SectionKind → Section
  schemaRegistry : Option (GoMap AnyMap) := none

/-- `section[filePath] = resolved` for the files of one section. -/
def RawConfig.setSection (rc : RawConfig) (kind : SectionKind) (m : Section) : RawConfig :=
  { rc with sections := Function.update rc.sections kind m }

/-- The loop over the files of a section; no value is the panic of the type assertion. -/
def resolveFiles (registry : GoMap AnyMap) : List (String × AnyMap) →
    Option (List (String × AnyMap) × List ValidationError)
  | [] => some ([], [])
  | (filePath, data) :: files =>
    let resolved := resolveRefsInValue registry filePath [] (ofMap data)
    match resolved.1.asMap with
    | none => none
    | some m => (resolveFiles registry files).map fun rest => ((filePath, m) :: rest.1, resolved.2 ++ rest.2)

/-- The loop over the sections. -/
def resolveSections (registry : GoMap AnyMap) : List SectionKind → RawConfig × List ValidationError →
    Option (RawConfig × List ValidationError)
  | [], st => some st
  | kind :: kinds, (rc, errs) =>
    match resolveFiles registry (rc.sections kind).toPairs with
    | none => none
    | some r => resolveSections registry kinds (rc.setSection kind (GoMap.ofPairs r.1), errs ++ r.2)

/-- `ResolveRefs`: the config with the resolved sections and the errors.  In a registry that is `nil` no name is found.
-/
def resolveRefs (rc : RawConfig) (orders : Orders rc.schemas) : Option (RawConfig × List ValidationError) :=
  let built := buildSchemaRegistry orders
  resolveSections (built.1.getD ∅) SectionKind.all ({ rc with schemaRegistry := built.1 }, built.2)

/-! ### The loops -/

section

variable {registry : GoMap AnyMap}

/-- A file after its references are resolved. -/
def resolveFile (registry : GoMap AnyMap) (file : String × AnyMap) : Resolved :=
  resolveRefsInValue registry file.1 [] (ofMap file.2)

private theorem resolveFiles_ne_none {files : List (String × AnyMap)} :
    resolveFiles registry files ≠ none ↔ ∀ file ∈ files, (resolveFile registry file).1.asMap ≠ none := by
  induction files with
  | nil => simp [resolveFiles]
  | cons file files ih =>
    obtain ⟨filePath, data⟩ := file
    rw [resolveFiles, List.forall_mem_cons, ← ih, resolveFile]
    cases (resolveRefsInValue registry filePath [] (ofMap data)).1.asMap with
    | none => simp
    | some m => simp

private theorem resolveFiles_errs {files : List (String × AnyMap)} {r : List (String × AnyMap) × List ValidationError}
    (h : resolveFiles registry files = some r) : r.2 = [] ↔ ∀ file ∈ files, (resolveFile registry file).2 = [] := by
  induction files generalizing r with
  | nil =>
    cases h
    simp
  | cons file files ih =>
    obtain ⟨filePath, data⟩ := file
    rw [resolveFiles] at h
    split at h
    · cases h
    · obtain ⟨rest, hrest, rfl⟩ := Option.map_eq_some_iff.1 h
      rw [List.forall_mem_cons, ← ih hrest, List.append_eq_nil_iff]
      rfl

/-- The sections that come are as they were. -/
private theorem forall_setSection {P : String × AnyMap → Prop} {kind : SectionKind} {kinds : List SectionKind}
    (h : kind ∉ kinds) (rc : RawConfig) (m : Section) :
    (∀ kind' ∈ kinds, ∀ file ∈ ((rc.setSection kind m).sections kind').toPairs, P file) ↔
      ∀ kind' ∈ kinds, ∀ file ∈ (rc.sections kind').toPairs, P file := by
  refine forall₂_congr fun kind' hkind' => ?_
  have hne : kind' ≠ kind := by
    rintro rfl
    exact h hkind'
  have hsame : (rc.setSection kind m).sections kind' = rc.sections kind' := Function.update_of_ne hne _ _
  rw [hsame]

private theorem resolveSections_ne_none {kinds : List SectionKind} (hkinds : kinds.Nodup) (rc : RawConfig)
    (errs : List ValidationError) :
    resolveSections registry kinds (rc, errs) ≠ none ↔
      ∀ kind ∈ kinds, ∀ file ∈ (rc.sections kind).toPairs, (resolveFile registry file).1.asMap ≠ none := by
  induction kinds generalizing rc errs with
  | nil => simp [resolveSections]
  | cons kind kinds ih =>
    rw [List.nodup_cons] at hkinds
    rw [List.forall_mem_cons, ← resolveFiles_ne_none, resolveSections]
    cases hfiles : resolveFiles registry (rc.sections kind).toPairs with
    | none => simp
    | some r =>
      dsimp only
      rw [ih hkinds.2, and_iff_right (by simp)]
      exact forall_setSection hkinds.1 rc _

private theorem resolveSections_errs {kinds : List SectionKind} (hkinds : kinds.Nodup) {rc rc' : RawConfig}
    {errs errs' : List ValidationError} (h : resolveSections registry kinds (rc, errs) = some (rc', errs')) :
    errs' = [] ↔ errs = [] ∧ ∀ kind ∈ kinds, ∀ file ∈ (rc.sections kind).toPairs,
      (resolveFile registry file).2 = [] := by
  induction kinds generalizing rc errs with
  | nil =>
    cases h
    simp
  | cons kind kinds ih =>
    rw [List.nodup_cons] at hkinds
    rw [resolveSections] at h
    split at h
    · cases h
    · rename_i r hfiles
      rw [ih hkinds.2 h, List.append_eq_nil_iff, resolveFiles_errs hfiles, List.forall_mem_cons,
        forall_setSection hkinds.1 rc _, and_assoc]

end

/-! ### Files that stay objects -/

/-- The value is an object that is no reference, or a reference that leads to one, over `n` names. -/
inductive Grounded (defined : String → AnyMap → Prop) : Json → Nat → Prop where
  | obj {fields} : refOf fields = none → Grounded defined (.obj fields) 0
  | ref {fields name schema n} : refOf fields = some name → defined name schema → Grounded defined (ofMap schema) n →
      Grounded defined (.obj fields) (n + 1)

section

variable {registry : GoMap AnyMap}

abbrev DefinedIn (registry : GoMap AnyMap) (name : String) (schema : AnyMap) : Prop :=
  registry.lookup name = some schema

theorem Grounded.unique {v : Json} {n n' : Nat} (h : Grounded (DefinedIn registry) v n)
    (h' : Grounded (DefinedIn registry) v n') : n = n' := by
  induction h generalizing n' with
  | obj hnone =>
    cases h' with
    | obj => rfl
    | ref hsome =>
      rw [hnone] at hsome
      cases hsome
  | ref hsome hlookup _ ih =>
    cases h' with
    | obj hnone =>
      rw [hnone] at hsome
      cases hsome
    | ref hsome' hlookup' h' =>
      rw [hsome] at hsome'
      cases hsome'
      rw [DefinedIn, hlookup] at hlookup'
      cases hlookup'
      rw [ih h']

/-- The names that have been seen lead over more names than are left, so none of them comes again. -/
private theorem asMap_of_grounded {filePath : String} {v : Json} {n : Nat} (h : Grounded (DefinedIn registry) v n) :
    ∀ seen, (∀ name ∈ seen, ∃ schema m, registry.lookup name = some schema ∧
      Grounded (DefinedIn registry) (ofMap schema) m ∧ n ≤ m) →
      (resolveRefsInValue registry filePath seen v).1.asMap ≠ none := by
  induction h with
  | obj hnone =>
    intro seen _
    rw [resolveRefsInValue, resolveValue, hnone]
    exact Option.some_ne_none _
  | @ref fields name schema n hsome hlookup hschema ih =>
    intro seen hseen
    have hname : name ∉ seen := by
      intro hmem
      obtain ⟨schema', m, hlookup', hground, hle⟩ := hseen name hmem
      rw [hlookup] at hlookup'
      cases hlookup'
      have := hschema.unique hground
      omega
    rw [resolveRefsInValue, resolveValue, hsome]
    dsimp only
    rw [resolveRef_registered hname hlookup]
    refine ih (seen ++ [name]) fun name' hname' => ?_
    rcases List.mem_append.1 hname' with hname' | hname'
    · obtain ⟨schema', m, hlookup', hground, hle⟩ := hseen name' hname'
      exact ⟨schema', m, hlookup', hground, by omega⟩
    · rw [List.mem_singleton.1 hname']
      exact ⟨schema, n, hlookup, hschema, le_refl n⟩

private theorem grounded_of_resolveRef (filePath : String) (seen : List String) (refName : String) :
    (resolveRef registry filePath seen refName).1.asMap ≠ none →
      ∃ schema n, registry.lookup refName = some schema ∧ Grounded (DefinedIn registry) (ofMap schema) n := by
  induction seen, refName using resolveRef_induction registry with
  | hseen seen refName h =>
    rw [resolveRef_seen h]
    exact fun hnil => absurd rfl hnil
  | hnone seen refName h hlookup =>
    rw [resolveRef_unregistered h hlookup]
    exact fun hnil => absurd rfl hnil
  | hsome seen refName schema h hlookup ih =>
    rw [resolveRef_registered h hlookup, resolveRefsInValue, ofMap, resolveValue]
    intro hmap
    cases hname : refOf schema.toPairs with
    | none => exact ⟨schema, 0, hlookup, .obj hname⟩
    | some name =>
      rw [hname] at hmap
      obtain ⟨schema', n, hlookup', hground⟩ := ih name hmap
      exact ⟨schema, n + 1, hlookup, .ref hname hlookup' hground⟩

private theorem resolveFile_ne_none {file : String × AnyMap} :
    (resolveFile registry file).1.asMap ≠ none ↔ ∃ n, Grounded (DefinedIn registry) (ofMap file.2) n := by
  constructor
  · rw [resolveFile, resolveRefsInValue, ofMap, resolveValue]
    intro hmap
    cases hname : refOf file.2.toPairs with
    | none => exact ⟨0, .obj hname⟩
    | some name =>
      rw [hname] at hmap
      obtain ⟨schema, n, hlookup, hground⟩ := grounded_of_resolveRef _ _ _ hmap
      exact ⟨n + 1, .ref hname hlookup hground⟩
  · rintro ⟨n, hground⟩
    exact asMap_of_grounded hground [] fun name hname => absurd hname List.not_mem_nil

end

/-! ### The errors -/

def ReferenceFails (registry : GoMap AnyMap) (v : Json) : Prop :=
  (∃ name, Reaches registry v name ∧ name ∉ registry) ∨ ∃ names, RefChain registry v names ∧ ¬names.Nodup

def Registered (schemas : Section) (name : String) (schema : AnyMap) : Prop :=
  ((∀ filePath, ¬Ambiguous schemas filePath) ∧ ∀ name, ¬Collides schemas name) ∧
    ∃ source, Claims schemas name source schema

/-- With every order the errors are returned, and there is one exactly if the registry is invalid or a reference fails.
-/
def ReturnsErrors (rc : RawConfig) : Prop :=
  ∀ orders : Orders rc.schemas, ∃ rc' errs, resolveRefs rc orders = some (rc', errs) ∧
    (errs ≠ [] ↔ (buildSchemaRegistry orders).1 = none ∨ ∃ kind filePath data,
      (rc.sections kind).lookup filePath = some data ∧
        ReferenceFails ((buildSchemaRegistry orders).1.getD ∅) (ofMap data))

private theorem definedIn_built {schemas : Section} (orders : Orders schemas) :
    DefinedIn ((buildSchemaRegistry orders).1.getD ∅) = Registered schemas := by
  funext name schema
  rw [eq_iff_iff, DefinedIn, Registered, ← schemaErrors_eq_nil, buildSchemaRegistry_registry]
  by_cases hok : schemaErrors schemas = []
  · rw [if_pos hok, Option.getD_some, lookup_registry orders ((schemaErrors_eq_nil schemas).1 hok).2]
    simp [hok]
  · rw [if_neg hok, Option.getD_none, AList.lookup_empty]
    simp [hok]

private theorem resolveFile_errs {registry : GoMap AnyMap} {file : String × AnyMap} :
    (resolveFile registry file).2 = [] ↔ ¬ReferenceFails registry (ofMap file.2) := by
  rw [resolveFile, resolveRefsInValue_ok, ReferenceFails]
  push Not
  rfl

/-- The orders of the lists that stand for the maps. -/
def Orders.listed (schemas : Section) : Orders schemas where
  files := schemas.toPairs
  files_perm := .refl _
  keys filePath := ((schemas.lookup filePath).map AList.toPairs).getD []
  keys_perm filePath content h := by rw [h]; exact .refl _
  keywords _ := bareSchemaKeywords
  keywords_perm _ := .refl _
  names sources := sources.toPairs
  names_perm _ := .refl _

private theorem mem_all (kind : SectionKind) : kind ∈ SectionKind.all := by
  cases kind <;> decide

private theorem resolveRefs_ne_none (rc : RawConfig) (orders : Orders rc.schemas) :
    resolveRefs rc orders ≠ none ↔ ∀ kind filePath data, (rc.sections kind).lookup filePath = some data →
      ∃ n, Grounded (Registered rc.schemas) (ofMap data) n := by
  rw [resolveRefs, resolveSections_ne_none (by decide)]
  simp only [resolveFile_ne_none, definedIn_built]
  constructor
  · exact fun h kind filePath data hfile => h kind (mem_all kind) (filePath, data) (AList.mem_toPairs.2 hfile)
  · exact fun h kind _ file hfile => h kind file.1 file.2 (AList.mem_toPairs.1 hfile)

private theorem buildSchemaRegistry_none {schemas : Section} (orders : Orders schemas) :
    (buildSchemaRegistry orders).1 = none ↔ (buildSchemaRegistry orders).2 ≠ [] := by
  rw [buildSchemaRegistry_registry, buildSchemaRegistry_errors]
  split_ifs with h
  · simp [h]
  · simp [h]

private theorem resolveRefs_errs {rc rc' : RawConfig} {orders : Orders rc.schemas} {errs : List ValidationError}
    (h : resolveRefs rc orders = some (rc', errs)) :
    errs ≠ [] ↔ (buildSchemaRegistry orders).1 = none ∨ ∃ kind filePath data,
      (rc.sections kind).lookup filePath = some data ∧
        ReferenceFails ((buildSchemaRegistry orders).1.getD ∅) (ofMap data) := by
  rw [resolveRefs] at h
  rw [buildSchemaRegistry_none, ← not_iff_not, not_not, resolveSections_errs (by decide) h]
  simp only [resolveFile_errs]
  push Not
  refine and_congr_right fun _ => ?_
  constructor
  · exact fun h kind filePath data hfile => h kind (mem_all kind) (filePath, data) (AList.mem_toPairs.2 hfile)
  · exact fun h kind _ file hfile => h kind file.1 file.2 (AList.mem_toPairs.1 hfile)

theorem resolveRefs_iff (rc : RawConfig) :
    ReturnsErrors rc ↔ ∀ kind filePath data, (rc.sections kind).lookup filePath = some data →
      ∃ n, Grounded (Registered rc.schemas) (ofMap data) n := by
  constructor
  · intro h
    obtain ⟨rc', errs, hsome, -⟩ := h (Orders.listed rc.schemas)
    refine (resolveRefs_ne_none rc (Orders.listed rc.schemas)).1 ?_
    rw [hsome]
    exact Option.some_ne_none _
  · intro hground orders
    obtain ⟨⟨rc', errs⟩, hsome⟩ := Option.ne_none_iff_exists'.1 ((resolveRefs_ne_none rc orders).2 hground)
    exact ⟨rc', errs, hsome, resolveRefs_errs hsome⟩

/-- A route file that is a reference to a schema that is not there. -/
def danglingRoute : RawConfig where
  schemas := ∅
  sections
    | .routes => GoMap.ofPairs [("routes/a.json", GoMap.ofPairs [("$ref", .str "schemas/Missing")])]
    | _ => ∅

theorem resolveRefs_panics : ¬ReturnsErrors danglingRoute := by
  intro h
  obtain ⟨rc', errs, hsome, -⟩ := h (Orders.listed ∅)
  have hground := (resolveRefs_ne_none danglingRoute (Orders.listed ∅)).1 (by rw [hsome]; exact Option.some_ne_none _)
  have hfile : (danglingRoute.sections .routes).lookup "routes/a.json" =
      some (GoMap.ofPairs [("$ref", .str "schemas/Missing")]) :=
    (GoMap.lookup_ofPairs _ _).trans List.lookup_cons_self
  obtain ⟨n, hn⟩ := hground .routes _ _ hfile
  cases hn with
  | obj hnone => exact absurd hnone (by decide)
  | ref _ hdefined _ =>
    obtain ⟨-, source, hclaim⟩ := hdefined
    have hempty (filePath : String) (content : AnyMap) : danglingRoute.schemas.lookup filePath ≠ some content := by
      rw [show danglingRoute.schemas = ∅ from rfl, AList.lookup_empty]
      exact (Option.some_ne_none _).symm
    cases hclaim with
    | bare hlookup => exact hempty _ _ hlookup
    | key hlookup => exact hempty _ _ hlookup

end Noda.Config
