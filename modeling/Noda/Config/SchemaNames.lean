import Noda.Config.SchemaRegistry

/-!
# Where the project lives

The names of the schemas come from the absolute paths of their files: the directory of a file counts from the first
element `schemas` on, wherever that is.  If the project lives in a directory with such an element, then its path becomes
part of every name.

`locationIndependent_iff`: the names are the same in two places exactly if neither has an element `schemas`.
-/

namespace Noda.Config

open FilePath (split)

/-- The directory of a project: the elements of its absolute path. -/
structure ProjectDir where
  components : List String
  slashFree : ∀ c ∈ components, '/' ∉ c.toList

namespace ProjectDir

variable (R R' : ProjectDir)

/-- The path of a file from its path below the directory of the schemas. -/
def schemaPath (p : String) : String := "/" ++ "/".intercalate (R.components ++ ["schemas", p])

/-- The schema files of the project. -/
def schemas (files : Section) : Section := GoMap.ofPairs (files.toPairs.map fun e => (R.schemaPath e.1, e.2))

private theorem schemaPath_eq (p : String) : ∃ dir, R.schemaPath p = dir ++ ("/schemas/" ++ p) := by
  have htext : "/schemas/" ++ p = "/" ++ ("schemas" ++ ("/" ++ p)) := by
    simp only [← String.append_assoc]
    rfl
  have hinter : "/".intercalate ["schemas", p] = "schemas" ++ ("/" ++ p) := by
    rw [String.intercalate_cons_cons, String.intercalate_singleton, String.append_assoc]
  rw [schemaPath, htext]
  cases hcomponents : R.components with
  | nil => exact ⟨"", by rw [List.nil_append, hinter, String.empty_append]⟩
  | cons c cs =>
    refine ⟨"/" ++ "/".intercalate (c :: cs), ?_⟩
    rw [String.intercalate_append_of_ne_nil (List.cons_ne_nil c cs) (List.cons_ne_nil _ _), hinter]
    simp only [String.append_assoc]

private theorem split_schemaPath (p : String) :
    split (R.schemaPath p) = "" :: (R.components ++ "schemas" :: split p) := by
  have hfree : ∀ c ∈ R.components ++ ["schemas"], '/' ∉ c.toList := by
    intro c hc
    rcases List.mem_append.1 hc with hc | hc
    · exact R.slashFree c hc
    · rw [List.mem_singleton.1 hc]
      decide
  have happend : R.components ++ ["schemas", p] = (R.components ++ ["schemas"]) ++ [p] := by simp
  rw [schemaPath, FilePath.split_cons, happend, FilePath.split_intercalate_append hfree, List.append_assoc]
  rfl

private theorem schemaPath_injective : Function.Injective R.schemaPath := by
  intro p q h
  have hsplit : split (R.schemaPath p) = split (R.schemaPath q) := congrArg split h
  rw [split_schemaPath, split_schemaPath, List.cons_inj_right, List.append_cancel_left_eq,
    List.cons_inj_right] at hsplit
  rw [← FilePath.intercalate_split p, hsplit, FilePath.intercalate_split]

private theorem lookup_schemas {files : Section} {filePath : String} {content : AnyMap} :
    (R.schemas files).lookup filePath = some content ↔
      ∃ p, filePath = R.schemaPath p ∧ files.lookup p = some content := by
  have hmap : (files.toPairs.map fun e => (R.schemaPath e.1, e.2)).map Prod.fst =
      (files.toPairs.map Prod.fst).map R.schemaPath := by
    rw [List.map_map, List.map_map]
    rfl
  have hnodup : ((files.toPairs.map fun e => (R.schemaPath e.1, e.2)).map Prod.fst).Nodup := by
    rw [hmap]
    exact (AList.nodup_toPairs files).map R.schemaPath_injective
  rw [schemas, GoMap.lookup_ofPairs, Assoc.lookup_eq_some hnodup, List.mem_map]
  constructor
  · rintro ⟨⟨p, content⟩, hmem, heq⟩
    obtain ⟨rfl, rfl⟩ := Prod.mk.inj heq
    exact ⟨p, rfl, AList.mem_toPairs.1 hmem⟩
  · rintro ⟨p, rfl, hp⟩
    exact ⟨(p, content), AList.mem_toPairs.2 hp, rfl⟩

/-! ### Names without the place -/

private theorem dropWhile_schemas {pre : List String} (h : "schemas" ∉ pre) (post : List String) :
    ("" :: (pre ++ "schemas" :: post)).dropWhile (· ≠ "schemas") = "schemas" :: post := by
  rw [← List.cons_append, List.dropWhile_append_of_pos]
  · rfl
  · intro c hc
    rw [decide_eq_true_eq]
    rintro rfl
    rcases List.mem_cons.1 hc with hc | hc
    · exact absurd hc (by decide)
    · exact h hc

/-- The directory of the file counts from the directory of the schemas on. -/
private theorem extractSchemasRelPath_schemaPath (h : "schemas" ∉ R.components) (p : String) :
    extractSchemasRelPath (R.schemaPath p) = "/".intercalate ("schemas" :: (split p).dropLast) := by
  rw [extractSchemasRelPath, split_schemaPath, dropWhile_schemas h]
  dsimp only
  rw [List.dropLast_cons_of_ne_nil (FilePath.split_ne_nil p)]

private theorem keyedName_schemaPath (h : "schemas" ∉ R.components) (p key : String) :
    keyedName (R.schemaPath p) key = "/".intercalate ("schemas" :: (split p).dropLast) ++ "/" ++ key := by
  rw [keyedName, R.extractSchemasRelPath_schemaPath h]

private theorem bareName_schemaPath (h : "schemas" ∉ R.components) (h' : "schemas" ∉ R'.components) (p : String) :
    bareName (R.schemaPath p) = bareName (R'.schemaPath p) := by
  have htext : "/schemas/" ++ p = "/" ++ ("schemas/" ++ p) := by
    rw [← String.append_assoc]
    rfl
  have hslash : ∃ c ∈ ("schemas/" ++ p).toList, c ≠ '/' := ⟨'s', by rw [String.toList_append]; simp, by decide⟩
  obtain ⟨dir, hdir⟩ := R.schemaPath_eq p
  obtain ⟨dir', hdir'⟩ := R'.schemaPath_eq p
  have hbase : FilePath.base (R.schemaPath p) = FilePath.base (R'.schemaPath p) := by
    rw [hdir, hdir', htext, FilePath.base_append dir hslash, FilePath.base_append dir' hslash]
  have hext : FilePath.ext (R.schemaPath p) = FilePath.ext (R'.schemaPath p) := by
    rw [hdir, hdir', htext, FilePath.ext_append dir, FilePath.ext_append dir']
  rw [bareName, bareName, R.keyedName_schemaPath h, R'.keyedName_schemaPath h', hbase, hext]

private theorem claims_move (h : "schemas" ∉ R.components) (h' : "schemas" ∉ R'.components) {files : Section}
    {name : String}
    {source : SchemaSource} {schema : AnyMap} (hclaim : Claims (R.schemas files) name source schema) :
    ∃ p, source.filePath = R.schemaPath p ∧ Claims (R'.schemas files) name ⟨R'.schemaPath p, source.key⟩ schema := by
  cases hclaim with
  | bare hfile hkind =>
    obtain ⟨p, rfl, hp⟩ := R.lookup_schemas.1 hfile
    refine ⟨p, rfl, ?_⟩
    rw [R.bareName_schemaPath R' h h']
    exact .bare (R'.lookup_schemas.2 ⟨p, rfl, hp⟩) hkind
  | key hfile hkind hkey hschema =>
    obtain ⟨p, rfl, hp⟩ := R.lookup_schemas.1 hfile
    refine ⟨p, rfl, ?_⟩
    rw [R.keyedName_schemaPath h, ← R'.keyedName_schemaPath h']
    exact .key (R'.lookup_schemas.2 ⟨p, rfl, hp⟩) hkind hkey hschema

private theorem ambiguous_move {files : Section} (h : ∀ filePath, ¬Ambiguous (R.schemas files) filePath)
    (filePath : String) :
    ¬Ambiguous (R'.schemas files) filePath := by
  rintro ⟨content, hfile, hkind⟩
  obtain ⟨p, rfl, hp⟩ := R'.lookup_schemas.1 hfile
  exact h (R.schemaPath p) ⟨content, R.lookup_schemas.2 ⟨p, rfl, hp⟩, hkind⟩

private theorem collides_move (h : "schemas" ∉ R.components) (h' : "schemas" ∉ R'.components) {files : Section}
    (hone : ∀ name, ¬Collides (R'.schemas files) name) (name : String) : ¬Collides (R.schemas files) name := by
  rintro ⟨source, source', schema, schema', hne, hclaim, hclaim'⟩
  obtain ⟨p, hp, hmoved⟩ := R.claims_move R' h h' hclaim
  obtain ⟨p', hp', hmoved'⟩ := R.claims_move R' h h' hclaim'
  refine hone name ⟨_, _, schema, schema', fun heq => hne ?_, hmoved, hmoved'⟩
  obtain ⟨hpath, hkey⟩ := SchemaSource.mk.inj heq
  rw [R'.schemaPath_injective hpath, ← hp'] at hp
  exact SchemaSource.ext hp hkey

/-! ### The path of the project in the names -/

/-- The directory of a file counts from the first `schemas` in the path of the project on. -/
private theorem extractSchemasRelPath_of_mem (h : "schemas" ∈ R.components) :
    ∃ post, (∀ c ∈ post, '/' ∉ c.toList) ∧ ∀ p,
      extractSchemasRelPath (R.schemaPath p) =
        "/".intercalate ("schemas" :: (post ++ "schemas" :: (split p).dropLast)) := by
  obtain ⟨pre, post, hcomponents, hpre⟩ := List.eq_append_cons_of_mem h
  refine ⟨post, fun c hc => R.slashFree c (by simp [hcomponents, hc]), fun p => ?_⟩
  rw [extractSchemasRelPath, split_schemaPath, hcomponents, List.append_assoc, List.cons_append, dropWhile_schemas hpre]
  dsimp only
  rw [List.dropLast_cons_of_ne_nil (by simp), List.dropLast_append_of_ne_nil (by simp),
    List.dropLast_cons_of_ne_nil (FilePath.split_ne_nil p)]

end ProjectDir

/-- The names do not depend on which of two directories the project lives in: the registry has the same names with the
same definitions, and the names from the files of a directory start with the directory. -/
structure LocationIndependent (R R' : ProjectDir) : Prop where
  same : ∀ files (orders : Orders (R.schemas files)) (orders' : Orders (R'.schemas files)) (name : String),
    (buildSchemaRegistry orders).1.map (·.lookup name) = (buildSchemaRegistry orders').1.map (·.lookup name)
  inDir : ∀ S, S = R ∨ S = R' → ∀ files dirs file name key schema, (∀ c ∈ dirs ++ [file], '/' ∉ c.toList) →
    Claims (S.schemas files) name ⟨S.schemaPath ("/".intercalate (dirs ++ [file])), key⟩ schema →
      ("/".intercalate ("schemas" :: dirs) ++ "/").toList <+: name.toList

private theorem same_of_not_mem {R R' : ProjectDir} (h : "schemas" ∉ R.components) (h' : "schemas" ∉ R'.components)
    {files : Section} (orders : Orders (R.schemas files)) (orders' : Orders (R'.schemas files)) (name : String) :
    (buildSchemaRegistry orders).1.map (·.lookup name) = (buildSchemaRegistry orders').1.map (·.lookup name) := by
  have hiff : schemaErrors (R.schemas files) = [] ↔ schemaErrors (R'.schemas files) = [] := by
    rw [schemaErrors_eq_nil, schemaErrors_eq_nil]
    exact ⟨fun hok => ⟨R.ambiguous_move R' hok.1, R'.collides_move R h' h hok.2⟩,
      fun hok => ⟨R'.ambiguous_move R hok.1, R.collides_move R' h h' hok.2⟩⟩
  rw [buildSchemaRegistry_registry, buildSchemaRegistry_registry]
  by_cases hok : schemaErrors (R.schemas files) = []
  · have hok' := hiff.1 hok
    rw [if_pos hok, if_pos hok', Option.map_some, Option.map_some, Option.some.injEq]
    ext schema
    rw [lookup_registry orders ((schemaErrors_eq_nil _).1 hok).2,
      lookup_registry orders' ((schemaErrors_eq_nil _).1 hok').2]
    constructor
    · rintro ⟨source, hclaim⟩
      obtain ⟨p, -, hmoved⟩ := R.claims_move R' h h' hclaim
      exact ⟨_, hmoved⟩
    · rintro ⟨source, hclaim⟩
      obtain ⟨p, -, hmoved⟩ := R'.claims_move R h' h hclaim
      exact ⟨_, hmoved⟩
  · rw [if_neg hok, if_neg (hok ∘ hiff.2)]

private theorem isPrefix_of_claims {R : ProjectDir} (h : "schemas" ∉ R.components) {files : Section}
    {p name key : String}
    {schema : AnyMap} (hclaim : Claims (R.schemas files) name ⟨R.schemaPath p, key⟩ schema) :
    ("/".intercalate ("schemas" :: (split p).dropLast) ++ "/").toList <+: name.toList := by
  cases hclaim with
  | bare =>
    rw [bareName, R.keyedName_schemaPath h, String.toList_append (t := trimSuffix _ _)]
    exact List.prefix_append _ _
  | key =>
    rw [R.keyedName_schemaPath h, String.toList_append (t := key)]
    exact List.prefix_append _ _

/-- A definition `X` in a file. -/
def sampleFiles (p : String) : Section := GoMap.ofPairs [(p, GoMap.ofPairs [("X", .obj [])])]

private theorem claims_sampleFiles (R : ProjectDir) (p : String) :
    Claims (R.schemas (sampleFiles p)) (keyedName (R.schemaPath p) "X") ⟨R.schemaPath p, "X"⟩ (GoMap.ofPairs []) := by
  have hfile : (R.schemas (sampleFiles p)).lookup (R.schemaPath p) = some (GoMap.ofPairs [("X", .obj [])]) := by
    rw [R.lookup_schemas]
    refine ⟨p, rfl, ?_⟩
    rw [sampleFiles, GoMap.lookup_ofPairs, List.lookup_cons_self]
  have hkey : (GoMap.ofPairs [("X", Json.obj [])]).lookup "X" = some (.obj []) := by decide
  exact .key hfile (by decide) hkey rfl

/-- With an element `schemas` in the path of the project some name starts with another directory. -/
private theorem exists_misnamed {R : ProjectDir} (h : "schemas" ∈ R.components) :
    ∃ dir, '/' ∉ dir.toList ∧ ¬("/".intercalate ["schemas", dir] ++ "/").toList <+:
      (keyedName (R.schemaPath ("/".intercalate [dir, "F.json"])) "X").toList := by
  obtain ⟨post, hfree, hextract⟩ := R.extractSchemasRelPath_of_mem h
  obtain ⟨next, rest, hnext⟩ : ∃ next rest, post ++ ["schemas"] = next :: rest := by
    cases post with
    | nil => exact ⟨"schemas", [], rfl⟩
    | cons c cs => exact ⟨c, cs ++ ["schemas"], rfl⟩
  obtain ⟨dir, hdir, hne⟩ : ∃ dir : String, '/' ∉ dir.toList ∧ dir ≠ next := by
    by_cases ha : next = "a"
    · exact ⟨"b", by decide, by rw [ha]; decide⟩
    · exact ⟨"a", by decide, Ne.symm ha⟩
  refine ⟨dir, hdir, fun ⟨t, ht⟩ => hne ?_⟩
  have hsplitDir : split ("/".intercalate [dir, "F.json"]) = [dir, "F.json"] :=
    FilePath.split_intercalate (by simp [hdir]) (List.cons_ne_nil _ _)
  have hname : split (keyedName (R.schemaPath ("/".intercalate [dir, "F.json"])) "X") =
      "schemas" :: next :: (rest ++ [dir, "X"]) := by
    have hparts : ∀ c ∈ "schemas" :: (post ++ "schemas" :: [dir]), '/' ∉ c.toList := by
      intro c hc
      simp only [List.mem_cons, List.mem_append, List.not_mem_nil, or_false] at hc
      rcases hc with rfl | hc | rfl | rfl
      · decide
      · exact hfree c hc
      · decide
      · exact hdir
    rw [keyedName, hextract, hsplitDir]
    show split ("/".intercalate ("schemas" :: (post ++ "schemas" :: [dir])) ++ "/" ++ "X") = _
    rw [FilePath.split_append, FilePath.split_intercalate hparts (List.cons_ne_nil _ _)]
    have happend : post ++ "schemas" :: [dir] = next :: rest ++ [dir] := by
      rw [← hnext, List.append_assoc]
      rfl
    have hX : split "X" = ["X"] := by decide
    rw [happend, hX]
    simp
  have htext : keyedName (R.schemaPath ("/".intercalate [dir, "F.json"])) "X" =
      "/".intercalate ["schemas", dir] ++ "/" ++ String.ofList t := by
    apply String.toList_injective
    rw [← ht, String.toList_append (t := String.ofList t), String.toList_ofList]
  rw [htext, FilePath.split_append, FilePath.split_intercalate (by simp [hdir]) (List.cons_ne_nil _ _)] at hname
  exact (List.cons.inj (List.cons.inj hname).2).1

theorem locationIndependent_iff (R R' : ProjectDir) :
    LocationIndependent R R' ↔ "schemas" ∉ R.components ∧ "schemas" ∉ R'.components := by
  constructor
  · intro h
    have hnot (S : ProjectDir) (hS : S = R ∨ S = R') : "schemas" ∉ S.components := by
      intro hmem
      obtain ⟨dir, hdir, hnot⟩ := exists_misnamed hmem
      refine hnot (h.inDir S hS (sampleFiles ("/".intercalate [dir, "F.json"])) [dir] "F.json" _ "X" _ ?_
        (claims_sampleFiles S _))
      simp [hdir]
    exact ⟨hnot R (.inl rfl), hnot R' (.inr rfl)⟩
  · rintro ⟨h, h'⟩
    refine ⟨fun files => same_of_not_mem h h', ?_⟩
    intro S hS files dirs file name key schema hfree hclaim
    have hnot : "schemas" ∉ S.components := by
      rcases hS with rfl | rfl
      · exact h
      · exact h'
    have hpfx := isPrefix_of_claims hnot hclaim
    rwa [FilePath.split_intercalate hfree (by simp), List.dropLast_concat] at hpfx

/-- In `/schemas/p` the names are not those that they are in `/p`. -/
theorem not_locationIndependent_schemas :
    ¬LocationIndependent ⟨["schemas", "p"], by simp⟩ ⟨["p"], by simp⟩ := by
  intro h
  have hpfx := h.inDir _ (.inl rfl) (sampleFiles "a/F.json") ["a"] "F.json" _ "X" _ (by simp)
    (claims_sampleFiles _ "a/F.json")
  exact absurd hpfx (by decide)

end Noda.Config
