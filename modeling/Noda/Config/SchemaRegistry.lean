import Mathlib.Data.List.Perm.Basic
import Mathlib.Data.Prod.Lex
import Mathlib.Data.String.Basic
import Noda.Config.Resolved
import Noda.Lib.FilePath
import Noda.Lib.SortBy
import Noda.Lib.Strconv

/-!
# The schema registry

Every schema file claims ref names: a file that is a schema itself claims one, any other file claims one for each of its
keys with an object.  `BuildSchemaRegistry` goes through the files in the order of the map and writes what they claim
into the registry, one claim over the other; a second map collects the sources of each name, and a name with two sources
is an error.

The loops go through maps in any order (`Orders`).  `buildSchemaRegistry_spec`: no order matters, neither for the
registry nor for the errors.
-/

namespace Noda.Config

/-- An error in the config; none of the errors here has a schema path. -/
structure ValidationError where
  filePath : String
  jsonPath : String := ""
  message : String
  deriving DecidableEq

/-- Which file contributed a ref name, and under which of its keys; no key means the whole file. -/
@[ext]
structure SchemaSource where
  filePath : String
  key : String := ""
  deriving DecidableEq

namespace SchemaSource

def describe (s : SchemaSource) : String :=
  if s.key = "" then s.filePath ++ " (whole file)" else s.filePath ++ " (key " ++ s.key.goQuote ++ ")"

def order (s : SchemaSource) : String ×ₗ String := toLex (s.filePath, s.key)

end SchemaSource

/-! ### The kind of a schema file -/

/-- How the top level of a schema file is to be read. -/
inductive SchemaFileKind where
  /-- Each key is a named definition. -/
  | keyed
  /-- The file is a schema itself. -/
  | bare
  | ambiguous
  deriving DecidableEq

def isJSONString (v : Json) : Bool := v.asStr.isSome

def isJSONArray (v : Json) : Bool := v.asArr.isSome

/-- The keywords of a schema, with the shape of their values. -/
def bareSchemaKeywords : List (String × (Json → Bool)) :=
  [("$schema", isJSONString), ("$ref", isJSONString), ("type", fun v => isJSONString v || isJSONArray v),
    ("enum", isJSONArray), ("oneOf", isJSONArray), ("anyOf", isJSONArray), ("allOf", isJSONArray)]

/-- Keywords whose values are objects, as definitions are. -/
def ambiguousSchemaKeywords : List String := ["properties", "items"]

/-- The loops of `classifySchemaFile`, the first one over the keywords that are left. -/
def classifyLoop (content : AnyMap) (sawWrongShapedKeyword : Bool) : List (String × (Json → Bool)) → SchemaFileKind
  | [] =>
    if sawWrongShapedKeyword then .keyed
    else if ambiguousSchemaKeywords.any fun kw => kw ∈ content then .ambiguous
    else .keyed
  | (kw, hasKeywordShape) :: keywords =>
    match content.lookup kw with
    | none => classifyLoop content sawWrongShapedKeyword keywords
    | some v => if hasKeywordShape v then .bare else classifyLoop content true keywords

def classifySchemaFile (keywords : List (String × (Json → Bool))) (content : AnyMap) : SchemaFileKind :=
  classifyLoop content false keywords

/-! ### The names -/

/-- The directory from the first element `schemas` on. -/
def extractSchemasRelPath (filePath : String) : String :=
  match (FilePath.split filePath).dropWhile (· ≠ "schemas") with
  | [] => "schemas"
  | parts => "/".intercalate parts.dropLast

/-- `strings.TrimSuffix`. -/
def trimSuffix (s suffix : String) : String :=
  if suffix.toList.isSuffixOf s.toList then
    String.ofList (s.toList.take (s.toList.length - suffix.toList.length))
  else s

/-- The name of the definition `key` in a file. -/
def keyedName (filePath key : String) : String := extractSchemasRelPath filePath ++ "/" ++ key

/-- The name of a file that is a schema. -/
def bareName (filePath : String) : String :=
  keyedName filePath (trimSuffix (FilePath.base filePath) (FilePath.ext filePath))

/-! ### The registry -/

/-- The orders in which the loops go through the maps: the files, the keys of each file, the keywords at each file, and
the names at the end. -/
structure Orders (schemas : Section) where
  files : List (String × AnyMap)
  files_perm : files.Perm schemas.toPairs
  keys : String → List (String × Json)
  keys_perm : ∀ filePath content, schemas.lookup filePath = some content → (keys filePath).Perm content.toPairs
  keywords : String → List (String × (Json → Bool))
  keywords_perm : ∀ filePath, (keywords filePath).Perm bareSchemaKeywords
  names : GoMap (List SchemaSource) → List (String × List SchemaSource)
  names_perm : ∀ sources, (names sources).Perm sources.toPairs

/-- The variables of `BuildSchemaRegistry`. -/
structure Building where
  registry : GoMap AnyMap := ∅
  sources : GoMap (List SchemaSource) := ∅
  ambiguous : List ValidationError := []

def Building.claim (b : Building) (refName : String) (source : SchemaSource) (schema : AnyMap) : Building :=
  { b with
    registry := b.registry.insert refName schema
    sources := b.sources.modify refName [] (· ++ [source]) }

def ambiguousError (filePath : String) : ValidationError where
  filePath := filePath
  message :=
    "cannot tell whether this file is a JSON Schema document or a map of schema definitions — " ++
    "it has a top-level \"properties\" or \"items\" but no " ++
    "\"type\"/\"$schema\"/\"$ref\"/\"enum\"/\"oneOf\"/\"anyOf\"/\"allOf\". " ++
    "Add \"type\" to make it a schema document, or rename the definition to make it a named-definitions file"

/-- One pass of the loop over the keys of a file. -/
def Building.visitKey (filePath : String) (b : Building) (e : String × Json) : Building :=
  match e.2.asMap with
  | some schema => b.claim (keyedName filePath e.1) ⟨filePath, e.1⟩ schema
  | none => b

/-- One pass of the loop over the files. -/
def Building.visitFile {schemas : Section} (orders : Orders schemas) (b : Building) (file : String × AnyMap) :
    Building :=
  match classifySchemaFile (orders.keywords file.1) file.2 with
  | .ambiguous => { b with ambiguous := b.ambiguous ++ [ambiguousError file.1] }
  | .bare => b.claim (bareName file.1) ⟨file.1, ""⟩ file.2
  | .keyed => (orders.keys file.1).foldl (Building.visitKey file.1) b

/-- The error about a name with the sources `srcs`, which are sorted. -/
def collisionError (name : String) (srcs : List SchemaSource) : ValidationError :=
  let first := srcs.headD ⟨"", ""⟩
  { filePath := first.filePath
    jsonPath := if first.key ≠ "" then "/" ++ first.key else ""
    message :=
      "duplicate schema ref " ++ name.goQuote ++ " defined " ++ toString srcs.length ++ " times: " ++
      ", ".intercalate (srcs.map SchemaSource.describe) ++
      " — ref names must be unique; rename one definition, " ++
      "or move one file into a schemas/ subdirectory (the directory " ++
      "is part of the ref name)" }

def collisionErrors (order : List (String × List SchemaSource)) (sources : GoMap (List SchemaSource)) :
    List ValidationError :=
  let names := (order.filter fun e => 1 < e.2.length).map Prod.fst
  (sortStrings names).map fun name => collisionError name (sortBy SchemaSource.order (sources.getD name []))

/-- `BuildSchemaRegistry`: the registry, which is `nil` if there are errors, and the errors. -/
def buildSchemaRegistry {schemas : Section} (orders : Orders schemas) : Option (GoMap AnyMap) × List ValidationError :=
  let b := orders.files.foldl (Building.visitFile orders) {}
  let errs := sortBy ValidationError.filePath b.ambiguous ++ collisionErrors (orders.names b.sources) b.sources
  if errs = [] then (some b.registry, errs) else (none, errs)

/-! ### No order of the keywords matters -/

/-- The keyword is there with a value of its shape. -/
def hasShaped (content : AnyMap) (e : String × (Json → Bool)) : Bool :=
  match content.lookup e.1 with
  | some v => e.2 v
  | none => false

/-- The kind of a file: it is a schema if some keyword has the right shape, and has definitions if some keyword has a
wrong one. -/
def schemaFileKind (content : AnyMap) : SchemaFileKind :=
  if bareSchemaKeywords.any (hasShaped content) then .bare
  else if bareSchemaKeywords.any fun e => e.1 ∈ content then .keyed
  else if ambiguousSchemaKeywords.any fun kw => kw ∈ content then .ambiguous
  else .keyed

private theorem classifyLoop_eq (content : AnyMap) (saw : Bool) (keywords : List (String × (Json → Bool))) :
    classifyLoop content saw keywords =
      if keywords.any (hasShaped content) then .bare
      else if saw || keywords.any fun e => e.1 ∈ content then .keyed
      else if ambiguousSchemaKeywords.any fun kw => kw ∈ content then .ambiguous
      else .keyed := by
  induction keywords generalizing saw with
  | nil => simp [classifyLoop]
  | cons e keywords ih =>
    obtain ⟨kw, hasKeywordShape⟩ := e
    rw [classifyLoop]
    cases hlookup : content.lookup kw with
    | none =>
      have hshaped : ((kw, hasKeywordShape) :: keywords).any (hasShaped content) =
          keywords.any (hasShaped content) := by
        rw [List.any_cons, hasShaped, hlookup, Bool.false_or]
      have hmem : (((kw, hasKeywordShape) :: keywords).any fun e => decide (e.1 ∈ content)) =
          keywords.any fun e => decide (e.1 ∈ content) := by
        rw [List.any_cons, decide_eq_false (AList.lookup_eq_none.1 hlookup), Bool.false_or]
      rw [hshaped, hmem]
      exact ih saw
    | some v =>
      have hshaped : ((kw, hasKeywordShape) :: keywords).any (hasShaped content) =
          (hasKeywordShape v || keywords.any (hasShaped content)) := by
        rw [List.any_cons, hasShaped, hlookup]
      have hmem : (((kw, hasKeywordShape) :: keywords).any fun e => decide (e.1 ∈ content)) = true := by
        rw [List.any_cons, decide_eq_true (AList.mem_of_lookup hlookup), Bool.true_or]
      rw [hshaped, hmem, Bool.or_true]
      dsimp only
      cases hasKeywordShape v with
      | true => rfl
      | false => exact ih true

private theorem classifySchemaFile_eq {keywords : List (String × (Json → Bool))} (h : keywords.Perm bareSchemaKeywords)
    (content : AnyMap) : classifySchemaFile keywords content = schemaFileKind content := by
  rw [classifySchemaFile, classifyLoop_eq, h.any_eq, h.any_eq, Bool.false_or, schemaFileKind]

/-! ### What the files claim -/

/-- A source claims a name for a definition. -/
inductive Claims (schemas : Section) : String → SchemaSource → AnyMap → Prop where
  | bare {filePath content} : schemas.lookup filePath = some content → schemaFileKind content = .bare →
      Claims schemas (bareName filePath) ⟨filePath, ""⟩ content
  | key {filePath content key v schema} : schemas.lookup filePath = some content → schemaFileKind content = .keyed →
      content.lookup key = some v → v.asMap = some schema →
      Claims schemas (keyedName filePath key) ⟨filePath, key⟩ schema

structure Claim where
  name : String
  source : SchemaSource
  schema : AnyMap

def fileClaims (keys : List (String × Json)) (file : String × AnyMap) : List Claim :=
  match schemaFileKind file.2 with
  | .ambiguous => []
  | .bare => [⟨bareName file.1, ⟨file.1, ""⟩, file.2⟩]
  | .keyed => keys.filterMap fun e => e.2.asMap.map fun schema => ⟨keyedName file.1 e.1, ⟨file.1, e.1⟩, schema⟩

def Orders.claims {schemas : Section} (orders : Orders schemas) : List Claim :=
  orders.files.flatMap fun file => fileClaims (orders.keys file.1) file

def claims (schemas : Section) : List Claim := schemas.toPairs.flatMap fun file => fileClaims file.2.toPairs file

theorem Orders.claims_perm {schemas : Section} (orders : Orders schemas) :
    orders.claims.Perm (Config.claims schemas) := by
  refine List.Perm.trans (List.Perm.flatMap_left _ fun file hfile => ?_) (orders.files_perm.flatMap_right _)
  have hkeys := orders.keys_perm file.1 file.2 (AList.mem_toPairs.1 (orders.files_perm.mem_iff.1 hfile))
  unfold fileClaims
  split
  · exact .refl _
  · exact .refl _
  · exact hkeys.filterMap _

private theorem mem_claims {schemas : Section} {c : Claim} :
    c ∈ claims schemas ↔ Claims schemas c.name c.source c.schema := by
  rw [claims, List.mem_flatMap]
  constructor
  · rintro ⟨⟨filePath, content⟩, hfile, hc⟩
    have hfile := AList.mem_toPairs.1 hfile
    unfold fileClaims at hc
    split at hc
    · exact absurd hc List.not_mem_nil
    · rename_i hkind
      rw [List.mem_singleton.1 hc]
      exact .bare hfile hkind
    · rename_i hkind
      obtain ⟨⟨key, v⟩, hkey, hv⟩ := List.mem_filterMap.1 hc
      obtain ⟨schema, hschema, rfl⟩ := Option.map_eq_some_iff.1 hv
      exact .key hfile hkind (AList.mem_toPairs.1 hkey) hschema
  · obtain ⟨name, source, schema⟩ := c
    intro h
    cases h with
    | @bare filePath _ hfile hkind =>
      refine ⟨(filePath, schema), AList.mem_toPairs.2 hfile, ?_⟩
      simp only [fileClaims, hkind]
      exact List.mem_singleton_self _
    | @key filePath content key v _ hfile hkind hkey hschema =>
      refine ⟨(filePath, content), AList.mem_toPairs.2 hfile, ?_⟩
      simp only [fileClaims, hkind, List.mem_filterMap]
      exact ⟨(key, v), AList.mem_toPairs.2 hkey, Option.map_eq_some_iff.2 ⟨schema, hschema, rfl⟩⟩

private theorem filePath_of_mem_fileClaims {keys : List (String × Json)} {file : String × AnyMap} {c : Claim}
    (h : c ∈ fileClaims keys file) : c.source.filePath = file.1 := by
  unfold fileClaims at h
  split at h
  · exact absurd h List.not_mem_nil
  · rw [List.mem_singleton.1 h]
  · obtain ⟨e, -, he⟩ := List.mem_filterMap.1 h
    obtain ⟨schema, -, rfl⟩ := Option.map_eq_some_iff.1 he
    rfl

private theorem nodup_sources (schemas : Section) : ((claims schemas).map Claim.source).Nodup := by
  have hfiles := AList.nodup_toPairs schemas
  rw [claims, List.map_flatMap, List.nodup_flatMap]
  constructor
  · rintro ⟨filePath, content⟩ -
    unfold fileClaims
    split
    · exact List.nodup_nil
    · exact List.nodup_singleton _
    · have hkeys := AList.nodup_toPairs content
      rw [List.map_filterMap]
      rw [List.Nodup, List.pairwise_map] at hkeys
      rw [List.Nodup, List.pairwise_filterMap]
      refine hkeys.imp fun {e e'} hne source hs source' hs' heq => hne ?_
      obtain ⟨c, hc, rfl⟩ := Option.map_eq_some_iff.1 hs
      obtain ⟨c', hc', rfl⟩ := Option.map_eq_some_iff.1 hs'
      obtain ⟨schema, -, rfl⟩ := Option.map_eq_some_iff.1 hc
      obtain ⟨schema', -, rfl⟩ := Option.map_eq_some_iff.1 hc'
      exact (SchemaSource.mk.inj heq).2
  · rw [List.Nodup, List.pairwise_map] at hfiles
    refine hfiles.imp fun {file file'} hne source hs hs' => hne ?_
    obtain ⟨c, hc, rfl⟩ := List.mem_map.1 hs
    obtain ⟨c', hc', heq⟩ := List.mem_map.1 hs'
    rw [← filePath_of_mem_fileClaims hc, ← heq, filePath_of_mem_fileClaims hc']

/-! ### What the loop writes -/

def Building.claimAll (b : Building) (cs : List Claim) : Building :=
  cs.foldl (fun b c => b.claim c.name c.source c.schema) b

section

variable {schemas : Section} (orders : Orders schemas)

private theorem foldl_visitKey (filePath : String) (keys : List (String × Json)) (b : Building) :
    keys.foldl (Building.visitKey filePath) b =
      b.claimAll (keys.filterMap fun e =>
        e.2.asMap.map fun schema => ⟨keyedName filePath e.1, ⟨filePath, e.1⟩, schema⟩) := by
  induction keys generalizing b with
  | nil => rfl
  | cons e keys ih =>
    rw [List.foldl_cons, ih, Building.visitKey]
    cases hmap : e.2.asMap with
    | none => rw [List.filterMap_cons_none (by rw [hmap]; rfl)]
    | some schema => rw [List.filterMap_cons_some (by rw [hmap]; rfl)]; rfl

def ambiguousOf (files : List (String × AnyMap)) : List ValidationError :=
  (files.filter fun file => schemaFileKind file.2 = .ambiguous).map fun file => ambiguousError file.1

private theorem claimAll_ambiguous (b : Building) (errs : List ValidationError) (cs : List Claim) :
    ({ b with ambiguous := errs } : Building).claimAll cs = { b.claimAll cs with ambiguous := errs } := by
  induction cs generalizing b with
  | nil => rfl
  | cons c cs ih => exact ih (b.claim c.name c.source c.schema)

private theorem visitFile_eq (b : Building) (file : String × AnyMap) :
    b.visitFile orders file =
      { b.claimAll (fileClaims (orders.keys file.1) file) with ambiguous := b.ambiguous ++ ambiguousOf [file] } := by
  rw [Building.visitFile, classifySchemaFile_eq (orders.keywords_perm file.1), fileClaims, ambiguousOf]
  cases hkind : schemaFileKind file.2 with
  | ambiguous => simp [hkind, Building.claimAll]
  | bare => simp [hkind, Building.claimAll, Building.claim]
  | keyed =>
    rw [foldl_visitKey, List.filter_cons_of_neg (by simp [hkind]), List.filter_nil, List.map_nil, List.append_nil]
    exact claimAll_ambiguous b b.ambiguous _

private theorem foldl_visitFile (files : List (String × AnyMap)) (b : Building) :
    files.foldl (Building.visitFile orders) b =
      { b.claimAll (files.flatMap fun file => fileClaims (orders.keys file.1) file) with
        ambiguous := b.ambiguous ++ ambiguousOf files } := by
  induction files generalizing b with
  | nil => simp [Building.claimAll, ambiguousOf]
  | cons file files ih =>
    rw [List.foldl_cons, ih, visitFile_eq, claimAll_ambiguous, List.flatMap_cons]
    have happend : ambiguousOf (file :: files) = ambiguousOf [file] ++ ambiguousOf files := by
      rw [ambiguousOf, ← List.singleton_append, List.filter_append, List.map_append]
      rfl
    rw [happend, ← List.append_assoc, Building.claimAll, Building.claimAll, Building.claimAll, List.foldl_append]

end

private theorem claimAll_sources (cs : List Claim) (b : Building) (name : String) :
    (b.claimAll cs).sources.getD name [] = b.sources.getD name [] ++ (cs.filter (·.name = name)).map Claim.source := by
  induction cs generalizing b with
  | nil => simp [Building.claimAll]
  | cons c cs ih =>
    show ((b.claim c.name c.source c.schema).claimAll cs).sources.getD name [] = _
    rw [ih, Building.claim]
    by_cases hname : c.name = name
    · subst hname
      rw [AList.getD_modify_self, List.filter_cons_of_pos (by simp), List.map_cons, List.append_assoc,
        List.singleton_append]
    · rw [AList.getD_modify_of_ne _ _ _ (Ne.symm hname), List.filter_cons_of_neg (by simpa using hname)]

private theorem lookup_claimAll (cs : List Claim) (b : Building) (name : String) (schema : AnyMap) :
    (b.claimAll cs).registry.lookup name = some schema →
      b.registry.lookup name = some schema ∨ ∃ c ∈ cs, c.name = name ∧ c.schema = schema := by
  induction cs generalizing b with
  | nil => exact .inl
  | cons c cs ih =>
    intro h
    rcases ih (b.claim c.name c.source c.schema) h with hb | ⟨c', hc', hname⟩
    · by_cases hname : name = c.name
      · subst hname
        rw [Building.claim, AList.lookup_insert, Option.some.injEq] at hb
        exact .inr ⟨c, List.mem_cons_self, rfl, hb⟩
      · rw [Building.claim, AList.lookup_insert_ne hname] at hb
        exact .inl hb
    · exact .inr ⟨c', List.mem_cons_of_mem _ hc', hname⟩

private theorem mem_claimAll (cs : List Claim) (b : Building) (name : String) :
    name ∈ (b.claimAll cs).registry ↔ name ∈ b.registry ∨ ∃ c ∈ cs, c.name = name := by
  induction cs generalizing b with
  | nil => simp [Building.claimAll]
  | cons c cs ih =>
    show name ∈ ((b.claim c.name c.source c.schema).claimAll cs).registry ↔ _
    rw [ih, Building.claim, AList.mem_insert, List.exists_mem_cons_iff]
    constructor
    · rintro ((rfl | h) | h)
      · exact .inr (.inl rfl)
      · exact .inl h
      · exact .inr (.inr h)
    · rintro (h | rfl | h)
      · exact .inl (.inr h)
      · exact .inl (.inl rfl)
      · exact .inr h

/-! ### The errors -/

def Ambiguous (schemas : Section) (filePath : String) : Prop :=
  ∃ content, schemas.lookup filePath = some content ∧ schemaFileKind content = .ambiguous

def Collides (schemas : Section) (name : String) : Prop :=
  ∃ source source' schema schema', source ≠ source' ∧ Claims schemas name source schema ∧
    Claims schemas name source' schema'

def sourcesOf (schemas : Section) (name : String) : List SchemaSource :=
  ((claims schemas).filter (·.name = name)).map Claim.source

private theorem mem_sourcesOf {schemas : Section} {name : String} {source : SchemaSource} :
    source ∈ sourcesOf schemas name ↔ ∃ schema, Claims schemas name source schema := by
  rw [sourcesOf, List.mem_map]
  constructor
  · rintro ⟨c, hc, rfl⟩
    obtain ⟨hc, hname⟩ := List.mem_filter.1 hc
    rw [← of_decide_eq_true hname]
    exact ⟨c.schema, mem_claims.1 hc⟩
  · rintro ⟨schema, h⟩
    refine ⟨⟨name, source, schema⟩, List.mem_filter.2 ⟨mem_claims.2 h, ?_⟩, rfl⟩
    exact decide_eq_true rfl

private theorem nodup_sourcesOf (schemas : Section) (name : String) : (sourcesOf schemas name).Nodup :=
  (nodup_sources schemas).sublist (List.filter_sublist.map _)

private theorem one_lt_length_sourcesOf {schemas : Section} {name : String} :
    1 < (sourcesOf schemas name).length ↔ Collides schemas name := by
  have hnodup := nodup_sourcesOf schemas name
  constructor
  · intro h
    rcases hsources : sourcesOf schemas name with _ | ⟨source, _ | ⟨source', rest⟩⟩
    · rw [hsources] at h
      exact absurd h (by decide)
    · rw [hsources] at h
      exact absurd h (by simp)
    · have hmem (s : SchemaSource) (hs : s ∈ source :: source' :: rest) := mem_sourcesOf.1 (hsources ▸ hs)
      obtain ⟨schema, hschema⟩ := hmem source List.mem_cons_self
      obtain ⟨schema', hschema'⟩ := hmem source' (List.mem_cons_of_mem _ List.mem_cons_self)
      rw [hsources, List.nodup_cons] at hnodup
      refine ⟨source, source', schema, schema', ?_, hschema, hschema'⟩
      rintro rfl
      exact hnodup.1 List.mem_cons_self
  · rintro ⟨source, source', schema, schema', hne, hclaim, hclaim'⟩
    have hmem := mem_sourcesOf.2 ⟨schema, hclaim⟩
    have hmem' := mem_sourcesOf.2 ⟨schema', hclaim'⟩
    by_contra hle
    rcases hsources : sourcesOf schemas name with _ | ⟨s, _ | ⟨s', rest⟩⟩
    · rw [hsources] at hmem
      exact absurd hmem List.not_mem_nil
    · rw [hsources, List.mem_singleton] at hmem hmem'
      exact hne (hmem.trans hmem'.symm)
    · rw [hsources] at hle
      simp at hle

def collidingNames (schemas : Section) : List String :=
  ((claims schemas).map Claim.name).dedup.filter fun name => 1 < (sourcesOf schemas name).length

private theorem mem_collidingNames {schemas : Section} {name : String} :
    name ∈ collidingNames schemas ↔ Collides schemas name := by
  rw [collidingNames, List.mem_filter, decide_eq_true_eq, one_lt_length_sourcesOf, List.mem_dedup]
  refine and_iff_right_of_imp ?_
  rintro ⟨source, -, schema, -, -, hclaim, -⟩
  exact List.mem_map.2 ⟨⟨name, source, schema⟩, mem_claims.2 hclaim, rfl⟩

private theorem nodup_collidingNames (schemas : Section) : (collidingNames schemas).Nodup :=
  (List.nodup_dedup _).filter _

/-- The errors, whatever the orders. -/
def schemaErrors (schemas : Section) : List ValidationError :=
  sortBy ValidationError.filePath (ambiguousOf schemas.toPairs) ++
    (sortStrings (collidingNames schemas)).map fun name =>
      collisionError name (sortBy SchemaSource.order (sourcesOf schemas name))

private theorem map_filePath_ambiguousOf (files : List (String × AnyMap)) :
    (ambiguousOf files).map ValidationError.filePath =
      (files.filter fun file => schemaFileKind file.2 = .ambiguous).map Prod.fst := by
  rw [ambiguousOf, List.map_map]
  rfl

private theorem nodup_ambiguousOf (schemas : Section) :
    ((ambiguousOf schemas.toPairs).map ValidationError.filePath).Nodup := by
  rw [map_filePath_ambiguousOf]
  exact (AList.nodup_toPairs schemas).sublist (List.filter_sublist.map _)

private theorem mem_ambiguousOf {schemas : Section} {filePath : String} :
    filePath ∈ (ambiguousOf schemas.toPairs).map ValidationError.filePath ↔ Ambiguous schemas filePath := by
  rw [map_filePath_ambiguousOf]
  constructor
  · intro h
    obtain ⟨⟨filePath, content⟩, hfile, rfl⟩ := List.mem_map.1 h
    obtain ⟨hfile, hkind⟩ := List.mem_filter.1 hfile
    exact ⟨content, AList.mem_toPairs.1 hfile, of_decide_eq_true hkind⟩
  · rintro ⟨content, hfile, hkind⟩
    exact List.mem_map.2 ⟨(filePath, content),
      List.mem_filter.2 ⟨AList.mem_toPairs.2 hfile, decide_eq_true hkind⟩, rfl⟩

/-! ### No order matters -/

section

variable {schemas : Section} (orders : Orders schemas)

/-- The registry after the loop, before it is checked. -/
def Orders.registry : GoMap AnyMap := (({} : Building).claimAll orders.claims).registry

def Orders.sources : GoMap (List SchemaSource) := (({} : Building).claimAll orders.claims).sources

private theorem buildSchemaRegistry_eq :
    buildSchemaRegistry orders =
      let errs := sortBy ValidationError.filePath (ambiguousOf orders.files) ++
        collisionErrors (orders.names orders.sources) orders.sources
      if errs = [] then (some orders.registry, errs) else (none, errs) := by
  rw [buildSchemaRegistry, foldl_visitFile]
  rfl

theorem Orders.sources_perm (name : String) : (orders.sources.getD name []).Perm (sourcesOf schemas name) := by
  rw [Orders.sources, claimAll_sources]
  exact (orders.claims_perm.filter _).map _

private theorem sort_sources (name : String) :
    sortBy SchemaSource.order (orders.sources.getD name []) = sortBy SchemaSource.order (sourcesOf schemas name) := by
  refine sortBy_eq_of_perm (orders.sources_perm name) ?_
  refine List.Nodup.map (fun s s' h => ?_) ((orders.sources_perm name).nodup_iff.2 (nodup_sourcesOf schemas name))
  obtain ⟨hfile, hkey⟩ := Prod.mk.inj (toLex.injective h)
  exact SchemaSource.ext hfile hkey

private theorem names_perm_collidingNames :
    (((orders.names orders.sources).filter fun e => 1 < e.2.length).map Prod.fst).Perm (collidingNames schemas) := by
  have hperm := ((orders.names_perm orders.sources).filter fun e => 1 < e.2.length).map Prod.fst
  refine hperm.trans ((List.perm_ext_iff_of_nodup ?_ (nodup_collidingNames schemas)).2 fun name => ?_)
  · exact (AList.nodup_toPairs orders.sources).sublist (List.filter_sublist.map _)
  · rw [mem_collidingNames, ← one_lt_length_sourcesOf, ← (orders.sources_perm name).length_eq]
    constructor
    · intro h
      obtain ⟨⟨name, srcs⟩, he, rfl⟩ := List.mem_map.1 h
      obtain ⟨he, hlen⟩ := List.mem_filter.1 he
      rw [AList.getD_of_lookup (AList.mem_toPairs.1 he)]
      exact of_decide_eq_true hlen
    · intro h
      cases hlookup : orders.sources.lookup name with
      | none =>
        rw [AList.getD, hlookup] at h
        exact absurd h (by simp)
      | some srcs =>
        rw [AList.getD_of_lookup hlookup] at h
        exact List.mem_map.2 ⟨(name, srcs), List.mem_filter.2 ⟨AList.mem_toPairs.2 hlookup, decide_eq_true h⟩, rfl⟩

theorem buildSchemaRegistry_errors : (buildSchemaRegistry orders).2 = schemaErrors schemas := by
  have hambiguous : sortBy ValidationError.filePath (ambiguousOf orders.files) =
      sortBy ValidationError.filePath (ambiguousOf schemas.toPairs) := by
    have hperm : (ambiguousOf orders.files).Perm (ambiguousOf schemas.toPairs) := (orders.files_perm.filter _).map _
    exact sortBy_eq_of_perm hperm ((hperm.map _).nodup_iff.2 (nodup_ambiguousOf schemas))
  have hcollisions : collisionErrors (orders.names orders.sources) orders.sources =
      (sortStrings (collidingNames schemas)).map fun name =>
        collisionError name (sortBy SchemaSource.order (sourcesOf schemas name)) := by
    rw [collisionErrors, sortStrings_eq_of_perm (names_perm_collidingNames orders)]
    exact List.map_congr_left fun name _ => by rw [sort_sources]
  rw [buildSchemaRegistry_eq, hambiguous, hcollisions]
  dsimp only
  split_ifs
  · rfl
  · rfl

theorem buildSchemaRegistry_registry :
    (buildSchemaRegistry orders).1 = if schemaErrors schemas = [] then some orders.registry else none := by
  rw [← buildSchemaRegistry_errors orders, buildSchemaRegistry_eq]
  dsimp only
  split_ifs
  · rfl
  · rfl

theorem schemaErrors_eq_nil (schemas : Section) :
    schemaErrors schemas = [] ↔ (∀ filePath, ¬Ambiguous schemas filePath) ∧ ∀ name, ¬Collides schemas name := by
  have hambiguous : sortBy ValidationError.filePath (ambiguousOf schemas.toPairs) = [] ↔
      ∀ filePath, ¬Ambiguous schemas filePath := by
    have hnil := (sortBy_perm ValidationError.filePath (ambiguousOf schemas.toPairs)).length_eq
    simp only [← mem_ambiguousOf]
    rw [← List.eq_nil_iff_forall_not_mem, List.map_eq_nil_iff, ← List.length_eq_zero_iff, hnil, List.length_eq_zero_iff]
  have hcollides : sortStrings (collidingNames schemas) = [] ↔ ∀ name, ¬Collides schemas name := by
    simp only [← mem_collidingNames]
    rw [List.eq_nil_iff_forall_not_mem]
    simp only [mem_sortStrings]
  rw [schemaErrors, List.append_eq_nil_iff, List.map_eq_nil_iff, hambiguous, hcollides]

theorem lookup_registry (h : ∀ name, ¬Collides schemas name) (name : String) (schema : AnyMap) :
    orders.registry.lookup name = some schema ↔ ∃ source, Claims schemas name source schema := by
  constructor
  · intro hlookup
    rcases lookup_claimAll orders.claims {} name schema hlookup with hempty | ⟨c, hc, rfl, rfl⟩
    · rw [AList.lookup_empty] at hempty
      cases hempty
    · exact ⟨c.source, mem_claims.1 (orders.claims_perm.mem_iff.1 hc)⟩
  · rintro ⟨source, hclaim⟩
    have hmem : name ∈ orders.registry :=
      (mem_claimAll orders.claims {} name).2
        (.inr ⟨⟨name, source, schema⟩, orders.claims_perm.mem_iff.2 (mem_claims.2 hclaim), rfl⟩)
    obtain ⟨schema', hlookup⟩ := AList.exists_lookup_of_mem hmem
    rcases lookup_claimAll orders.claims {} name schema' hlookup with hempty | ⟨c, hc, rfl, rfl⟩
    · rw [AList.lookup_empty] at hempty
      cases hempty
    · -- the last claim is the only one
      have hc := orders.claims_perm.mem_iff.1 hc
      have hsource : c.source = source := by
        by_contra hne
        exact h c.name ⟨c.source, source, c.schema, schema, hne, mem_claims.1 hc, hclaim⟩
      have hsame : c = ⟨c.name, source, schema⟩ :=
        List.inj_on_of_nodup_map (nodup_sources schemas) hc (mem_claims.2 hclaim) hsource
      rw [hlookup, hsame]

/-- There is a registry exactly if no file is ambiguous and no name has two sources; then it has the claimed names with
their definitions.  Otherwise the errors are about the ambiguous files and about the names with two sources, each of
them once, in an order that does not depend on the orders of the loops. -/
theorem buildSchemaRegistry_spec (schemas : Section) :
    (∀ orders : Orders schemas, (buildSchemaRegistry orders).1 ≠ none ↔
      (∀ filePath, ¬Ambiguous schemas filePath) ∧ ∀ name, ¬Collides schemas name) ∧
    (∀ (orders : Orders schemas) registry, (buildSchemaRegistry orders).1 = some registry →
      (buildSchemaRegistry orders).2 = [] ∧
        ∀ name schema, registry.lookup name = some schema ↔ ∃ source, Claims schemas name source schema) ∧
    ∃ (files names : List String) (sources : String → List SchemaSource),
      files.Nodup ∧ (∀ filePath, filePath ∈ files ↔ Ambiguous schemas filePath) ∧
      names.Nodup ∧ (∀ name, name ∈ names ↔ Collides schemas name) ∧
      (∀ name source, source ∈ sources name ↔ ∃ schema, Claims schemas name source schema) ∧
      ∀ orders : Orders schemas, (buildSchemaRegistry orders).1 = none →
        (buildSchemaRegistry orders).2 =
          files.map ambiguousError ++ names.map fun name => collisionError name (sources name) := by
  refine ⟨fun orders => ?_, fun orders registry hregistry => ?_,
    (sortBy ValidationError.filePath (ambiguousOf schemas.toPairs)).map ValidationError.filePath,
    sortStrings (collidingNames schemas), fun name => sortBy SchemaSource.order (sourcesOf schemas name), ?_,
    fun filePath => ?_, ?_, fun name => ?_, fun name source => ?_, fun orders _ => ?_⟩
  · rw [buildSchemaRegistry_registry, ← schemaErrors_eq_nil]
    split_ifs with h
    · simp [h]
    · simp [h]
  · rw [buildSchemaRegistry_registry] at hregistry
    split_ifs at hregistry with h
    cases hregistry
    refine ⟨(buildSchemaRegistry_errors orders).trans h, ?_⟩
    exact lookup_registry orders ((schemaErrors_eq_nil schemas).1 h).2
  · exact ((sortBy_perm _ _).map _).nodup_iff.2 (nodup_ambiguousOf schemas)
  · rw [((sortBy_perm _ _).map _).mem_iff, mem_ambiguousOf]
  · exact nodup_sortStrings.2 (nodup_collidingNames schemas)
  · rw [mem_sortStrings, mem_collidingNames]
  · rw [mem_sortBy, mem_sourcesOf]
  · rw [buildSchemaRegistry_errors, schemaErrors, List.map_map]
    congr 1
    have herror : ∀ e ∈ ambiguousOf schemas.toPairs, ambiguousError e.filePath = e := by
      intro e he
      obtain ⟨file, -, rfl⟩ := List.mem_map.1 he
      rfl
    conv_lhs => rw [← List.map_id (sortBy _ _)]
    exact List.map_congr_left fun e he => (herror e (mem_sortBy.1 he)).symm

end

end Noda.Config
