import Noda.Config.SchemaRegistry
import Noda.Lib.Strconv
import Noda.Server.Groups

/-!
# Middleware in the checks of the config

`validateMiddlewareRefs` and `corsUsed` of `ValidateCrossRefs`, against what the server does with the same config.  Both
look for objects in the list of a route, where the schema has strings; and `corsUsed` knows neither the groups nor the
instances.  So they are right exactly when no route names an instance that there is not and when the CORS middleware,
if it is used at all, is found by its plain name in `global_middleware` or in a preset
(`checksMatch_iff`).
-/

namespace Noda.Config

open Noda.Server

/-! ### The checks -/

/-- The keys of an object of the root. -/
def collectKeys (root : AnyMap) (field : String) : List String := ((mapField root field).map AList.keys).getD []

def collectPresets (root : AnyMap) : List String := collectKeys root "middleware_presets"

def collectInstances (root : AnyMap) : List String := collectKeys root "middleware_instances"

/-- The error of a reference of an item to something that there is not. -/
def refError (filePath : String) (i : Nat) (field kind name : String) : ValidationError where
  filePath := filePath
  jsonPath := "/middleware/" ++ toString i ++ "/" ++ field
  message := "references non-existent middleware " ++ kind ++ " " ++ name.goQuote

/-- What the loop of `validateMiddlewareRefs` finds in an item. -/
def itemErrors (filePath : String) (presets instances : List String) (i : Nat) (m : AnyMap) : List ValidationError :=
  (match strField m "preset" with
    | some preset => if preset ∈ presets then [] else [refError filePath i "preset" "preset" preset]
    | none => []) ++
  (match strField m "use" with
    | some name =>
      if ':' ∈ name.toList ∧ name ∉ instances then [refError filePath i "use" "instance" name] else []
    | none => [])

def validateMiddlewareRefs (filePath : String) (route : AnyMap) (presets instances : List String) :
    List ValidationError :=
  ((arrField route "middleware").getD []).zipIdx.flatMap fun (item, i) =>
    match item.asMap with
    | some m => itemErrors filePath presets instances i m
    | none => []

def corsName : String := "security.cors"

/-- A string of the list is the name. -/
def listsCors (items : List Json) : Bool := items.any fun item => item.asStr = some corsName

def corsUsed (rc : ResolvedConfig) : Bool :=
  listsCors ((arrField rc.root "global_middleware").getD []) ||
  (((mapField rc.root "middleware_presets").getD ∅).toPairs.any fun e => listsCors (e.2.asArr.getD [])) ||
  rc.routes.toPairs.any fun e => ((arrField e.2 "middleware").getD []).any fun item =>
    (item.asMap.bind fun m => strField m "use") = some corsName

/-! ### What they are for -/

variable (E : Externals) (rc : ResolvedConfig)

/-- The part of the route schema about the list of middlewares. -/
def RoutesValid : Prop :=
  ∀ id route, rc.routes.lookup id = some route → ∀ v, route.lookup "middleware" = some v →
    ∃ names : List String, v = .arr (names.map Json.str)

def IsCors (name : String) : Prop := (parseMiddlewareName name).1 = corsName

instance (name : String) : Decidable (IsCors name) := inferInstanceAs (Decidable (_ = _))

/-- The server uses the CORS middleware. -/
def CorsActive : Prop :=
  (∃ name ∈ getGlobalMiddleware rc, IsCors name) ∨
  ∃ id route chain, rc.routes.lookup id = some route ∧ resolveMiddlewareNames E rc route = .ok chain ∧
    ∃ name ∈ chain, IsCors name

/-- An instance that is not defined. -/
def UndefinedInstance (name : String) : Prop :=
  (parseMiddlewareName name).2 ≠ "" ∧ name ∉ collectInstances rc.root

/-- The checks say what the server does. -/
structure ChecksMatch : Prop where
  cors : CorsActive E rc → corsUsed rc = true
  refs : ∀ id route, rc.routes.lookup id = some route →
    (validateMiddlewareRefs id route (collectPresets rc.root) (collectInstances rc.root) ≠ [] ↔
      ∃ name ∈ stringsField route "middleware", UndefinedInstance rc name)

/-! ### When they do it -/

/-- The plain name is in `global_middleware` or in a preset. -/
def CorsListed : Prop :=
  corsName ∈ getGlobalMiddleware rc ∨ ∃ preset names, (getPresets rc).lookup preset = some names ∧ corsName ∈ names

/-- Neither `global_middleware` nor what is listed for a route whose chain is resolved has the middleware. -/
def CorsAbsent : Prop :=
  (∀ name ∈ getGlobalMiddleware rc, ¬IsCors name) ∧
  ∀ id route, rc.routes.lookup id = some route → (∃ chain, resolveMiddlewareNames E rc route = .ok chain) →
    ∀ name ∈ listed rc route, ¬IsCors name

def InstancesDefined : Prop :=
  ∀ id route, rc.routes.lookup id = some route → ∀ name ∈ stringsField route "middleware", ¬UndefinedInstance rc name

variable {E rc}

private theorem listsCors_iff {items : List Json} : listsCors items = true ↔ corsName ∈ strings items := by
  simp [listsCors, strings]

private theorem items_of_valid (hvalid : RoutesValid rc) {id : String} {route : AnyMap}
    (hroute : rc.routes.lookup id = some route)
    {item : Json} (hitem : item ∈ (arrField route "middleware").getD []) : item.asMap = none := by
  unfold arrField at hitem
  cases hv : route.lookup "middleware" with
  | none =>
    rw [hv] at hitem
    cases hitem
  | some v =>
    obtain ⟨names, rfl⟩ := hvalid id route hroute v hv
    rw [hv] at hitem
    obtain ⟨name, -, rfl⟩ := List.mem_map.1 hitem
    rfl

/-- The check of the references has nothing to say about a route of the schema. -/
private theorem validateMiddlewareRefs_eq_nil (hvalid : RoutesValid rc) {id : String} {route : AnyMap}
    (hroute : rc.routes.lookup id = some route) (presets instances : List String) :
    validateMiddlewareRefs id route presets instances = [] := by
  unfold validateMiddlewareRefs
  rw [List.flatMap_eq_nil_iff]
  rintro ⟨item, i⟩ hitem
  have hmem := (List.mem_zipIdx_iff_getElem?.1 hitem)
  simp only [items_of_valid hvalid hroute (List.mem_of_getElem? hmem)]

private theorem corsUsed_iff (hvalid : RoutesValid rc) : corsUsed rc = true ↔ CorsListed rc := by
  have hglobal : listsCors ((arrField rc.root "global_middleware").getD []) = true ↔
      corsName ∈ getGlobalMiddleware rc := by
    rw [listsCors_iff, getGlobalMiddleware, stringsField]
    cases arrField rc.root "global_middleware" <;> rfl
  have hpresets : (((mapField rc.root "middleware_presets").getD ∅).toPairs.any fun e =>
      listsCors (e.2.asArr.getD [])) = true ↔
      ∃ preset names, (getPresets rc).lookup preset = some names ∧ corsName ∈ names := by
    simp only [List.any_eq_true, listsCors_iff, getPresets, lookup_filterMapValues]
    constructor
    · rintro ⟨⟨preset, v⟩, hmem, hcors⟩
      cases harr : v.asArr with
      | none =>
        simp only [harr] at hcors
        cases hcors
      | some items =>
        simp only [harr] at hcors
        refine ⟨preset, strings items, ?_, hcors⟩
        rw [AList.mem_toPairs.1 hmem, Option.bind_some, harr]
        rfl
    · rintro ⟨preset, names, hlookup, hcors⟩
      obtain ⟨v, hv, hnames⟩ := Option.bind_eq_some_iff.1 hlookup
      obtain ⟨items, hitems, rfl⟩ := Option.map_eq_some_iff.1 hnames
      refine ⟨(preset, v), AList.mem_toPairs.2 hv, ?_⟩
      rw [hitems]
      exact hcors
  have hroutes : (rc.routes.toPairs.any fun e => ((arrField e.2 "middleware").getD []).any fun item =>
      (item.asMap.bind fun m => strField m "use") = some corsName) = false := by
    rw [List.any_eq_false]
    rintro ⟨id, route⟩ hmem hany
    obtain ⟨item, hitem, huse⟩ := List.any_eq_true.1 hany
    rw [items_of_valid hvalid (AList.mem_toPairs.1 hmem) hitem] at huse
    simp at huse
  unfold corsUsed CorsListed
  rw [hroutes, Bool.or_false, Bool.or_eq_true, hglobal, hpresets]

private theorem not_corsActive_iff : ¬CorsActive E rc ↔ CorsAbsent E rc := by
  unfold CorsActive CorsAbsent
  rw [not_or]
  refine and_congr (by simp) ?_
  constructor
  · rintro hnone id route hroute ⟨chain, hchain⟩ name hname hcors
    refine hnone ⟨id, route, chain, hroute, hchain, name, ?_, hcors⟩
    rw [(resolveMiddlewareNames_eq hchain).1, mem_keepFirst]
    exact hname
  · rintro habsent ⟨id, route, chain, hroute, hchain, name, hname, hcors⟩
    rw [(resolveMiddlewareNames_eq hchain).1, mem_keepFirst] at hname
    exact habsent id route hroute ⟨chain, hchain⟩ name hname hcors

/-- The checks are right exactly when the CORS middleware is listed by its plain name in `global_middleware` or a
preset, or is not used at all, and every instance that the list of a route names is defined. -/
theorem checksMatch_iff (E : Externals) (rc : ResolvedConfig) (hvalid : RoutesValid rc) :
    ChecksMatch E rc ↔ (CorsListed rc ∨ CorsAbsent E rc) ∧ InstancesDefined rc := by
  have hcors : (CorsActive E rc → corsUsed rc = true) ↔ CorsListed rc ∨ CorsAbsent E rc := by
    rw [corsUsed_iff hvalid, ← not_corsActive_iff, or_comm]
    exact imp_iff_not_or
  have hrefs : (∀ id route, rc.routes.lookup id = some route →
      (validateMiddlewareRefs id route (collectPresets rc.root) (collectInstances rc.root) ≠ [] ↔
        ∃ name ∈ stringsField route "middleware", UndefinedInstance rc name)) ↔ InstancesDefined rc := by
    constructor
    · intro h id route hroute name hname hundefined
      exact (h id route hroute).2 ⟨name, hname, hundefined⟩ (validateMiddlewareRefs_eq_nil hvalid hroute _ _)
    · intro h id route hroute
      constructor
      · intro hne
        exact absurd (validateMiddlewareRefs_eq_nil hvalid hroute _ _) hne
      · rintro ⟨name, hname, hundefined⟩
        exact absurd hundefined (h id route hroute name hname)
  rw [← hcors, ← hrefs]
  exact ⟨fun h => ⟨h.cors, h.refs⟩, fun h => ⟨h.1, h.2⟩⟩

def oneRoute (root : AnyMap) (names : List String) : ResolvedConfig where
  root := root
  routes := GoMap.ofPairs [("routes/a.json", GoMap.ofPairs [("id", .str "a"), ("method", .str "GET"),
    ("path", .str "/api/a"), ("middleware", .arr (names.map Json.str)), ("trigger", .obj [("workflow", .str "a")])])]
  workflows := ∅
  connections := ∅

private theorem oneRoute_lookup {root : AnyMap} {names : List String} {id : String} {route : AnyMap}
    (h : (oneRoute root names).routes.lookup id = some route) :
    id = "routes/a.json" ∧ route.lookup "middleware" = some (.arr (names.map Json.str)) := by
  have hsingle := (GoMap.lookup_ofPairs_singleton "routes/a.json" id _).symm.trans h
  split_ifs at hsingle with hid
  cases hsingle
  exact ⟨hid, by rw [GoMap.lookup_ofPairs]; rfl⟩

private theorem oneRoute_valid (root : AnyMap) (names : List String) : RoutesValid (oneRoute root names) := by
  intro id route hroute v hv
  rw [(oneRoute_lookup hroute).2] at hv
  exact ⟨names, (Option.some.inj hv).symm⟩

/-- A preset with the middleware, and a route with an instance that is defined. -/
def corsPreset : AnyMap := GoMap.ofPairs [("middleware_presets", .obj [("public", .arr [.str "security.cors"])]),
  ("middleware_instances", .obj [("limiter:api", .obj [("type", .str "limiter"), ("config", .obj [("max", .num 5)])])]),
  ("route_groups", .obj [("/api", .obj [("middleware_preset", .str "public")])])]

theorem checksMatch_corsPreset : RoutesValid (oneRoute corsPreset ["limiter:api"]) ∧
    ChecksMatch limiterOnly (oneRoute corsPreset ["limiter:api"]) := by
  have hvalid := oneRoute_valid corsPreset ["limiter:api"]
  refine ⟨hvalid, (checksMatch_iff _ _ hvalid).2 ⟨.inl ((corsUsed_iff hvalid).1 (by decide +kernel)), ?_⟩⟩
  intro id route hroute name hname hundefined
  have hnames : stringsField route "middleware" = ["limiter:api"] := by
    unfold stringsField arrField
    rw [(oneRoute_lookup hroute).2]
    rfl
  rw [hnames, List.mem_singleton] at hname
  refine hundefined.2 ?_
  rw [hname]
  decide +kernel

/-- A route with the middleware and with an instance that is not defined: neither is seen. -/
theorem not_checksMatch_route : RoutesValid (oneRoute ∅ ["security.cors", "auth.jwt:prod"]) ∧
    resolveMiddlewareNames limiterOnly (oneRoute ∅ ["security.cors", "auth.jwt:prod"])
      (((oneRoute ∅ ["security.cors", "auth.jwt:prod"]).routes.lookup "routes/a.json").getD ∅) =
      .ok ["security.cors", "auth.jwt:prod"] ∧
    corsUsed (oneRoute ∅ ["security.cors", "auth.jwt:prod"]) = false ∧
    ¬ChecksMatch limiterOnly (oneRoute ∅ ["security.cors", "auth.jwt:prod"]) := by
  refine ⟨oneRoute_valid _ _, by decide +kernel, by decide +kernel, fun h => ?_⟩
  have hreports := h.refs "routes/a.json" _ ((GoMap.lookup_ofPairs_singleton _ _ _).trans (if_pos rfl))
  refine absurd (hreports.2 ⟨"auth.jwt:prod", ?_, ?_⟩) ?_
  · decide +kernel
  · exact ⟨by decide +kernel, by decide +kernel⟩
  · decide +kernel

end Noda.Config
