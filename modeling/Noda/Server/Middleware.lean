import Noda.Config.Resolved
import Noda.Lib.Outcome
import Noda.Lib.Strconv

/-!
# Middleware: the check and the start

`ValidateMiddlewareBuilds`, which a project passes before it is started, and what the start does with the middleware of
the same config: `applyGlobalMiddleware`, `ValidatePresets` and the chains of the routes in `registerRoutes`, and
`resolveEndpointMiddleware`.

The check sees a preset of a route group only through the routes that the group matches; the start looks at every group.
So a config that passes the check starts without an error of its middleware exactly when the groups that match no route
name presets that there are (`validateMiddlewareBuilds_boots_iff`, `validateMiddlewareBuilds_not_boots`).
-/

namespace Noda.Server

open Noda.Config

/-- The factories of the middleware types, the parsers of the configs of `auth.oidc`, `limiter` and `idempotency`, and
the verb `%v`.  A factory and a parser yield an error or none. -/
structure Externals where
  factory : String → Option AnyMap → AnyMap → Option String
  parse : String → Option AnyMap → Option String
  formatV : Option Json → String

variable (E : Externals) (rc : ResolvedConfig)

/-! ### Names and configs -/

/-- The keys of `middlewareRegistry`. -/
def middlewareTypes : List String :=
  ["recover", "logger", "requestid", "security.cors", "security.headers", "security.csrf", "limiter", "timeout",
    "compress", "etag", "auth.jwt", "auth.oidc", "casbin.enforce", "livekit.webhook", "idempotency",
    "response.status_remap"]

/-- The base type and the instance of a name, `""` for none. -/
def parseMiddlewareName (name : String) : String × String := (cut name ':').getD (name, "")

def extractInstanceConfig (name : String) (root : AnyMap) : Option AnyMap :=
  (mapField root "middleware_instances").bind fun instances =>
    (mapField instances name).bind fun entry => mapField entry "config"

def middlewareConfigPaths : List (String × List String) :=
  [("security.cors", ["security", "cors"]), ("security.headers", ["security", "headers"]),
    ("security.csrf", ["security", "csrf"]), ("auth.jwt", ["security", "jwt"]), ("auth.oidc", ["security", "oidc"]),
    ("auth.session", ["security", "session"]), ("casbin.enforce", ["security", "casbin"]),
    ("livekit.webhook", ["security", "livekit"])]

def extractMiddlewareConfig (name : String) (root : AnyMap) : Option AnyMap :=
  match (mapField root "middleware").bind fun mw => mapField mw name with
  | some cfg => some cfg
  | none => (middlewareConfigPaths.lookup name).bind fun path => path.foldlM mapField root

def instanceNotFound (name : String) : String :=
  "middleware instance " ++ name.goQuote ++ " not found in middleware_instances"

/-- `BuildMiddleware`. -/
def buildMiddleware (name : String) (root : AnyMap) : Option String :=
  let (baseType, inst) := parseMiddlewareName name
  if baseType ∉ middlewareTypes then some ("unknown middleware: " ++ name.goQuote)
  else if inst ≠ "" then
    match extractInstanceConfig name root with
    | none => some (instanceNotFound name)
    | some cfg => E.factory baseType (some cfg) root
  else E.factory baseType (extractMiddlewareConfig name root) root

/-- `buildMiddleware` of a server, whose own middleware is `auth.session`. -/
def serverBuildMiddleware (name : String) : Option String :=
  let (baseType, inst) := parseMiddlewareName name
  if baseType ≠ "auth.session" then buildMiddleware E name rc.root
  else if inst ≠ "" then
    match extractInstanceConfig name rc.root with
    | none => some (instanceNotFound name)
    | some cfg => E.factory baseType (some cfg) rc.root
  else E.factory baseType (extractMiddlewareConfig name rc.root) rc.root

/-! ### Presets, groups and chains -/

def getGlobalMiddleware : List String := stringsField rc.root "global_middleware"

def getPresets : GoMap (List String) :=
  filterMapValues (fun v => v.asArr.map strings) ((mapField rc.root "middleware_presets").getD ∅)

def getRouteGroups : Section := filterMapValues Json.asMap ((mapField rc.root "route_groups").getD ∅)

def expandPreset (name : String) : Except String (List String) :=
  match (getPresets rc).lookup name with
  | some mws => .ok mws
  | none => .error ("unknown middleware preset " ++ name.goQuote)

/-- The preset that a route, a group or an endpoint names. -/
def presetOf (m : AnyMap) : Option String := (strField m "middleware_preset").filter (· ≠ "")

def groupMiddleware (group : AnyMap) : Except String (List String) :=
  match presetOf group with
  | some preset => expandPreset rc preset
  | none => .ok (stringsField group "middleware")

/-- `strings.TrimSuffix(s, "/")`. -/
def trimSlash (s : String) : String :=
  if s.toList.getLast? = some '/' then String.ofList s.toList.dropLast else s

/-- The path is below the path of a group, segment by segment. -/
def prefixMatches (routePath pfx : String) : Bool :=
  let p := trimSlash pfx
  p = "" || routePath = p || (p ++ "/").toList.isPrefixOf routePath.toList

def routePath (route : AnyMap) : String := (strField route "path").getD ""

/-- The groups that match the path, the outermost first. -/
def matchedGroups (path : String) : List String :=
  ((getRouteGroups rc).keys.filter fun pfx => prefixMatches path pfx).insertionSort fun a b =>
    a.utf8ByteSize < b.utf8ByteSize ∨ (a.utf8ByteSize = b.utf8ByteSize ∧ a ≤ b)

def getGroupMiddleware (path : String) : Except String (List String) := do
  let lists ← (matchedGroups rc path).mapM fun pfx => groupMiddleware rc (((getRouteGroups rc).lookup pfx).getD ∅)
  return lists.flatten

def dedupe (items : List String) : List String :=
  items.foldl (fun result item => if item ∈ result then result else result ++ [item]) []

/-- Each type with those that must not come after it. -/
def middlewareOrderRules : List (String × List String) :=
  [("casbin.enforce", ["auth.jwt", "auth.oidc", "auth.session"])]

def validateMiddlewareOrder (chain : List String) : Option String :=
  let bases := chain.map fun name => (parseMiddlewareName name).1
  middlewareOrderRules.findSome? fun rule =>
    (bases.findIdx? (· = rule.1)).bind fun first =>
      rule.2.findSome? fun dep =>
        if dep ∈ bases.drop (first + 1) then
          some ("middleware " ++ dep.goQuote ++ " must appear before " ++ rule.1.goQuote ++ " in the chain")
        else none

/-- The end of both functions that resolve names. -/
def orderedNames (names : List String) : Except String (List String) :=
  match validateMiddlewareOrder (dedupe names) with
  | some err => .error err
  | none => .ok (dedupe names)

/-- The names of the preset of a route or an endpoint. -/
def presetMiddleware (m : AnyMap) : Except String (List String) :=
  match presetOf m with
  | some preset => expandPreset rc preset
  | none => .ok []

def resolveMiddlewareNames (route : AnyMap) : Except String (List String) := do
  let groupMW ← getGroupMiddleware rc (routePath route)
  let presetMW ← (presetMiddleware rc route).mapError fun err =>
    "route " ++ E.formatV (route.lookup "id") ++ ": " ++ err
  orderedNames (groupMW ++ presetMW ++ stringsField route "middleware")

def resolveEndpointMiddlewareNames (ep : AnyMap) : Except String (List String) := do
  let presetMW ← presetMiddleware rc ep
  orderedNames (presetMW ++ stringsField ep "middleware")

/-- The error of a chain, or of the first of its middlewares that has one. -/
def chainError (chain : Except String (List String)) : Option String :=
  match chain with
  | .error err => some err
  | .ok names => names.findSome? fun name =>
      (serverBuildMiddleware E rc name).map fun err => "middleware " ++ name.goQuote ++ ": " ++ err

/-! ### The check -/

/-- `offlineChecks`. -/
def offlineCheck (baseType : String) : Option (Option AnyMap → Option String) :=
  if baseType ∈ ["auth.session", "security.csrf"] then some fun _ => none
  else if baseType ∈ ["auth.oidc", "limiter", "idempotency"] then some (E.parse baseType)
  else none

def middlewareConfigFor (name : String) (root : AnyMap) : Except String (Option AnyMap) :=
  if (parseMiddlewareName name).2 ≠ "" then
    match extractInstanceConfig name root with
    | none => .error (instanceNotFound name)
    | some cfg => .ok (some cfg)
  else .ok (extractMiddlewareConfig name root)

def checkMiddlewareBuild (name : String) : Option String :=
  match offlineCheck E (parseMiddlewareName name).1 with
  | none => buildMiddleware E name rc.root
  | some check =>
    match middlewareConfigFor name rc.root with
    | .error err => some err
    | .ok cfg => check cfg

/-- A `MiddlewareChainError`, or a `MiddlewareBuildError` with the name. -/
structure MiddlewareError where
  name : Option String
  files : List String
  err : String
  deriving DecidableEq

/-- What the check has found so far. -/
structure Findings where
  errs : List MiddlewareError
  buildErr : GoMap (Option String)
  scopes : GoMap (List String)
  files : GoMap (List String)
  failed : List String

/-- `append`, unless the item is there. -/
def addOnce (m : GoMap (List String)) (key item : String) : GoMap (List String) :=
  m.modify key [] fun items => if item ∈ items then items else items ++ [item]

/-- The names that were not seen before are built. -/
def Findings.build (v : Findings) (name : String) : Findings :=
  if name ∈ v.buildErr then v
  else
    let err := checkMiddlewareBuild E rc name
    { v with buildErr := v.buildErr.insert name err, failed := if err.isSome then v.failed ++ [name] else v.failed }

/-- `check`: the scope refers to the name. -/
def Findings.check (v : Findings) (scope file name : String) : Findings :=
  let v := v.build E rc name
  if (v.buildErr.getD name none).isNone then v
  else { v with
    scopes := addOnce v.scopes name scope
    files := if file = "" then v.files else addOnce v.files name file }

def Findings.checkAll (v : Findings) (scope file : String) (names : List String) : Findings :=
  names.foldl (fun v name => v.check E rc scope file name) v

/-- A chain that cannot be resolved is an error; the names of the others are checked. -/
def Findings.visit (v : Findings) (scope file : String) (chain : Except String (List String)) : Findings :=
  match chain with
  | .error err => { v with errs := v.errs ++ [⟨none, [file], scope ++ ": " ++ err⟩] }
  | .ok names => v.checkAll E rc scope file names

def Findings.visitRoutes (v : Findings) : Findings :=
  (sortedSectionKeys rc.routes).foldl (fun v id =>
    v.visit E rc ("route " ++ id.goQuote) id (resolveMiddlewareNames E rc ((rc.routes.lookup id).getD ∅))) v

def endpointsOf (conn : AnyMap) : AnyMap := (mapField conn "endpoints").getD ∅

def Findings.visitConnection (v : Findings) (connID : String) (endpoints : AnyMap) : Findings :=
  (sortStrings endpoints.keys).foldl (fun v epName =>
    match mapField endpoints epName with
    | none => v
    | some ep =>
      v.visit E rc ("connection " ++ connID.goQuote ++ " endpoint " ++ epName.goQuote) connID
        (resolveEndpointMiddlewareNames rc ep)) v

def Findings.visitConnections (v : Findings) : Findings :=
  (sortedSectionKeys rc.connections).foldl (fun v connID =>
    v.visitConnection E rc connID (endpointsOf ((rc.connections.lookup connID).getD ∅))) v

def maxReportedScopes : Nat := 5

def joinScopes (scopes : List String) : String :=
  if scopes.length ≤ maxReportedScopes then ", ".intercalate scopes
  else
    ", ".intercalate (scopes.take maxReportedScopes) ++ " and " ++ toString (scopes.length - maxReportedScopes) ++
      " more"

def Findings.buildError (v : Findings) (name : String) : MiddlewareError :=
  ⟨some name, sortStrings (v.files.getD name []),
    joinScopes (v.scopes.getD name []) ++ ": middleware " ++ name.goQuote ++ ": " ++
      (v.buildErr.getD name none).getD ""⟩

def Findings.empty : Findings := ⟨[], ∅, ∅, ∅, []⟩

def findings : Findings :=
  let v := Findings.empty.checkAll E rc "global_middleware" "" (getGlobalMiddleware rc)
  (v.visitRoutes E rc).visitConnections E rc

def validateMiddlewareBuilds : List MiddlewareError :=
  (findings E rc).errs ++ (findings E rc).failed.map (findings E rc).buildError

/-! ### The start -/

def applyGlobalMiddleware : Option String :=
  (getGlobalMiddleware rc).findSome? fun name =>
    (serverBuildMiddleware E rc name).map fun err => "global middleware " ++ name.goQuote ++ ": " ++ err

/-- The error of a route or a group that names a preset that there is not. -/
def presetError (scope : String) (m : AnyMap) : Option String :=
  (presetOf m).bind fun preset =>
    if preset ∈ getPresets rc then none else some (scope ++ ": unknown middleware preset " ++ preset.goQuote)

def validatePresets : List String :=
  ((sortedSectionKeys rc.routes).filterMap fun id =>
      presetError rc ("route " ++ id.goQuote) ((rc.routes.lookup id).getD ∅)) ++
    (sortedSectionKeys (getRouteGroups rc)).filterMap fun pfx =>
      presetError rc ("route group " ++ pfx.goQuote) (((getRouteGroups rc).lookup pfx).getD ∅)

/-- An error of `registerRoutes`: of the middleware and the presets, or another one. -/
inductive BootError where
  | middleware (err : String)
  | other (err : String)
  deriving DecidableEq

/-- `resolveMiddlewareChainFull`. -/
def resolveMiddlewareChainFull (route : AnyMap) : Option String := chainError E rc (resolveMiddlewareNames E rc route)

/-- `resolveEndpointMiddleware`. -/
def resolveEndpointMiddleware (ep : AnyMap) : Option String := chainError E rc (resolveEndpointMiddlewareNames rc ep)

/-- `registerRoute`; `rest` is what it does after the chain. -/
def registerRoute (rest : AnyMap → Option String) (route : AnyMap) : Option BootError :=
  if (strField route "method").getD "" = "" ∨ routePath route = "" then some (.other "method and path are required")
  else
    match resolveMiddlewareChainFull E rc route with
    | some err => some (.middleware err)
    | none => (rest route).map .other

def BootError.inRoute (routeID : String) : BootError → BootError
  | .middleware err => .middleware ("route " ++ routeID.goQuote ++ ": " ++ err)
  | .other err => .other ("route " ++ routeID.goQuote ++ ": " ++ err)

def registerRoutes (rest : AnyMap → Option String) : Option BootError :=
  match validatePresets rc with
  | err :: _ => some (.middleware err)
  | [] => (sortedSectionKeys rc.routes).findSome? fun id =>
      (registerRoute E rc rest ((rc.routes.lookup id).getD ∅)).map (BootError.inRoute id)

/-- The start finds no error of the middleware or of the presets. -/
structure Boots (rest : AnyMap → Option String) : Prop where
  global : applyGlobalMiddleware E rc = none
  routes : ∀ err, registerRoutes E rc rest ≠ some (.middleware err)
  chains : ∀ id route, rc.routes.lookup id = some route → resolveMiddlewareChainFull E rc route = none
  endpoints : ∀ connID conn epName ep, rc.connections.lookup connID = some conn →
    mapField (endpointsOf conn) epName = some ep → resolveEndpointMiddleware E rc ep = none

/-- The check that stands in for a factory succeeds exactly when the factory does. -/
def OfflineChecksExact (root : AnyMap) : Prop :=
  ∀ baseType check, offlineCheck E baseType = some check → ∀ cfg, check cfg = none ↔ E.factory baseType cfg root = none

/-- The preset that a route, a group or an endpoint names is one of the config. -/
def PresetKnown (m : AnyMap) : Prop := ∀ preset, presetOf m = some preset → preset ∈ getPresets rc

/-- The groups that match no route name presets that there are. -/
def UnmatchedGroupsKnown : Prop :=
  ∀ pfx group, (getRouteGroups rc).lookup pfx = some group →
    (∀ id route, rc.routes.lookup id = some route → prefixMatches (routePath route) pfx = false) → PresetKnown rc group

/-! ### What the check says -/

variable {E rc}

/-- What was built before is remembered. -/
def Findings.Ok (E : Externals) (rc : ResolvedConfig) (v : Findings) : Prop :=
  ∀ name err, v.buildErr.lookup name = some err → err = checkMiddlewareBuild E rc name ∧ (err ≠ none → name ∈ v.failed)

def Findings.clean (v : Findings) : Prop := v.errs = [] ∧ v.failed = []

/-- A step of the check that stays right and stays clean exactly when `q` holds. -/
def Sound (E : Externals) (rc : ResolvedConfig) (f : Findings → Findings) (q : Prop) : Prop :=
  ∀ v, v.Ok E rc → (f v).Ok E rc ∧ ((f v).clean ↔ v.clean ∧ q)

private theorem sound_foldl {α : Type} {f : Findings → α → Findings} {q : α → Prop} {xs : List α}
    (h : ∀ x ∈ xs, Sound E rc (fun v => f v x) (q x)) : Sound E rc (fun v => xs.foldl f v) (∀ x ∈ xs, q x) := by
  induction xs with
  | nil =>
    intro v hv
    exact ⟨hv, by simp⟩
  | cons x xs ih =>
    intro v hv
    obtain ⟨hv', hclean⟩ := h x List.mem_cons_self v hv
    obtain ⟨hv'', hclean'⟩ := ih (fun y hy => h y (List.mem_cons_of_mem x hy)) (f v x) hv'
    refine ⟨hv'', hclean'.trans ?_⟩
    rw [List.forall_mem_cons, ← and_assoc]
    exact and_congr_left' hclean

theorem Findings.Ok.insert {v : Findings} (hv : v.Ok E rc) (name : String) {failed : List String}
    (hsub : ∀ name' ∈ v.failed, name' ∈ failed) (hfailed : checkMiddlewareBuild E rc name ≠ none → name ∈ failed) :
    Findings.Ok E rc
      { v with buildErr := v.buildErr.insert name (checkMiddlewareBuild E rc name), failed := failed } := by
  intro name' err herr
  by_cases heq : name' = name
  · subst heq
    have hlookup : (v.buildErr.insert name' (checkMiddlewareBuild E rc name')).lookup name' = some err := herr
    rw [AList.lookup_insert] at hlookup
    obtain rfl := Option.some.inj hlookup
    exact ⟨rfl, hfailed⟩
  · obtain ⟨hold, hin⟩ := hv name' err ((AList.lookup_insert_ne heq).symm.trans herr)
    exact ⟨hold, fun hne => hsub name' (hin hne)⟩

private theorem sound_build (name : String) :
    Sound E rc (fun v => v.build E rc name) (checkMiddlewareBuild E rc name = none) := by
  intro v hv
  simp only [Findings.build]
  split_ifs with hmem hsome
  · -- a name that was built without an error is not among those that failed
    refine ⟨hv, (and_iff_left_of_imp ?_).symm⟩
    rintro ⟨-, hfailed⟩
    obtain ⟨err, herr⟩ := AList.exists_lookup_of_mem hmem
    obtain ⟨rfl, hin⟩ := hv name err herr
    by_contra hne
    rw [hfailed] at hin
    exact List.not_mem_nil (hin hne)
  · refine ⟨hv.insert name (fun _ h => List.mem_append_left _ h) fun _ => by simp, ?_⟩
    have hne : checkMiddlewareBuild E rc name ≠ none := Option.isSome_iff_ne_none.1 hsome
    simp [Findings.clean, hne]
  · have hnone : checkMiddlewareBuild E rc name = none := by simpa using hsome
    refine ⟨hv.insert name (fun _ h => h) fun hne => absurd hnone hne, ?_⟩
    exact (and_iff_left hnone).symm

private theorem sound_check (scope file name : String) :
    Sound E rc (fun v => v.check E rc scope file name) (checkMiddlewareBuild E rc name = none) := by
  intro v hv
  have hbuild := sound_build name v hv
  simp only [Findings.check]
  split
  · exact hbuild
  · exact hbuild

private theorem sound_checkAll (scope file : String) (names : List String) :
    Sound E rc (fun v => v.checkAll E rc scope file names) (∀ name ∈ names, checkMiddlewareBuild E rc name = none) :=
  sound_foldl fun name _ => sound_check scope file name

def Buildable (E : Externals) (rc : ResolvedConfig) (chain : Except String (List String)) : Prop :=
  ∃ names, chain = .ok names ∧ ∀ name ∈ names, checkMiddlewareBuild E rc name = none

private theorem sound_visit (scope file : String) (chain : Except String (List String)) :
    Sound E rc (fun v => v.visit E rc scope file chain) (Buildable E rc chain) := by
  intro v hv
  cases chain with
  | error err => exact ⟨hv, by simp [Findings.visit, Findings.clean, Buildable]⟩
  | ok names =>
    obtain ⟨hv', hclean⟩ := sound_checkAll scope file names v hv
    refine ⟨hv', hclean.trans ?_⟩
    simp [Buildable]

private theorem sound_visitRoutes : Sound E rc (fun v => v.visitRoutes E rc)
    (∀ id ∈ sortedSectionKeys rc.routes, Buildable E rc (resolveMiddlewareNames E rc ((rc.routes.lookup id).getD ∅))) :=
  sound_foldl fun id _ => sound_visit _ id _

private theorem sound_visitConnection (connID : String) (endpoints : AnyMap) :
    Sound E rc (fun v => v.visitConnection E rc connID endpoints)
      (∀ epName ∈ sortStrings endpoints.keys, ∀ ep, mapField endpoints epName = some ep →
        Buildable E rc (resolveEndpointMiddlewareNames rc ep)) := by
  refine sound_foldl fun epName _ => ?_
  intro v hv
  cases hep : mapField endpoints epName with
  | none => exact ⟨hv, by simp⟩
  | some ep =>
    obtain ⟨hv', hclean⟩ := sound_visit ("connection " ++ connID.goQuote ++ " endpoint " ++ epName.goQuote) connID
      (resolveEndpointMiddlewareNames rc ep) v hv
    exact ⟨hv', hclean.trans (by simp)⟩

private theorem sound_visitConnections : Sound E rc (fun v => v.visitConnections E rc)
    (∀ connID ∈ sortedSectionKeys rc.connections,
      ∀ epName ∈ sortStrings (endpointsOf ((rc.connections.lookup connID).getD ∅)).keys,
      ∀ ep, mapField (endpointsOf ((rc.connections.lookup connID).getD ∅)) epName = some ep →
        Buildable E rc (resolveEndpointMiddlewareNames rc ep)) :=
  sound_foldl fun connID _ => sound_visitConnection connID _

/-- The check finds nothing exactly when everything that it visits can be built. -/
private theorem validateMiddlewareBuilds_eq_nil : validateMiddlewareBuilds E rc = [] ↔
    (∀ name ∈ getGlobalMiddleware rc, checkMiddlewareBuild E rc name = none) ∧
    (∀ id route, rc.routes.lookup id = some route → Buildable E rc (resolveMiddlewareNames E rc route)) ∧
    ∀ connID conn epName ep, rc.connections.lookup connID = some conn → mapField (endpointsOf conn) epName = some ep →
      Buildable E rc (resolveEndpointMiddlewareNames rc ep) := by
  have hstart : Findings.empty.Ok E rc := fun _ _ h => nomatch h
  obtain ⟨hok₁, hclean₁⟩ := sound_checkAll "global_middleware" "" (getGlobalMiddleware rc) _ hstart
  obtain ⟨hok₂, hclean₂⟩ := sound_visitRoutes _ hok₁
  obtain ⟨-, hclean₃⟩ := sound_visitConnections _ hok₂
  have hclean : validateMiddlewareBuilds E rc = [] ↔ (findings E rc).clean := by
    simp [validateMiddlewareBuilds, Findings.clean]
  rw [hclean]
  refine hclean₃.trans ((and_congr_left' (hclean₂.trans (and_congr_left' hclean₁))).trans ?_)
  have hempty : Findings.empty.clean := ⟨rfl, rfl⟩
  rw [and_iff_right hempty, and_assoc]
  refine and_congr_right' (and_congr
    (forall_sortedSectionKeys (P := fun _ route => Buildable E rc (resolveMiddlewareNames E rc route)))
    ((forall_sortedSectionKeys (P := fun _ conn => ∀ epName ∈ sortStrings (endpointsOf conn).keys, ∀ ep,
      mapField (endpointsOf conn) epName = some ep → Buildable E rc (resolveEndpointMiddlewareNames rc ep))).trans ?_))
  constructor
  · intro h connID conn epName ep hconn hep
    obtain ⟨v, hv, -⟩ := Option.bind_eq_some_iff.1 hep
    exact h connID conn hconn epName (mem_sortStrings.2 (AList.mem_of_lookup hv)) ep hep
  · intro h connID conn hconn epName _ ep hep
    exact h connID conn epName ep hconn hep

/-! ### The check and the start -/

private theorem offlineCheck_eq_some {baseType : String} {check : Option AnyMap → Option String}
    (h : offlineCheck E baseType = some check) : baseType = "auth.session" ∨ baseType ∈ middlewareTypes := by
  unfold offlineCheck at h
  split_ifs at h with hnone hparse
  · simp only [List.mem_cons, List.not_mem_nil, or_false] at hnone
    rcases hnone with rfl | rfl
    · exact .inl rfl
    · exact .inr (by decide)
  · simp only [List.mem_cons, List.not_mem_nil, or_false] at hparse
    rcases hparse with rfl | rfl | rfl
    · exact .inr (by decide)
    · exact .inr (by decide)
    · exact .inr (by decide)

private theorem serverBuildMiddleware_offline {name : String} {check : Option AnyMap → Option String}
    (h : offlineCheck E (parseMiddlewareName name).1 = some check) : serverBuildMiddleware E rc name =
      match middlewareConfigFor name rc.root with
      | .error err => some err
      | .ok cfg => E.factory (parseMiddlewareName name).1 cfg rc.root := by
  unfold serverBuildMiddleware buildMiddleware middlewareConfigFor
  rcases offlineCheck_eq_some h with hsession | hregistered
  · simp only [hsession, ne_eq, not_true_eq_false, if_false]
    split_ifs
    · rfl
    · cases extractInstanceConfig name rc.root <;> rfl
  · simp only [hregistered, not_true_eq_false, if_false, ite_self]
    split_ifs
    · cases extractInstanceConfig name rc.root <;> rfl
    · rfl

private theorem checkMiddlewareBuild_eq_none (hexact : OfflineChecksExact E rc.root) (name : String) :
    checkMiddlewareBuild E rc name = none ↔ serverBuildMiddleware E rc name = none := by
  unfold checkMiddlewareBuild
  cases hcheck : offlineCheck E (parseMiddlewareName name).1 with
  | none =>
    have hne : (parseMiddlewareName name).1 ≠ "auth.session" := by
      intro heq
      rw [heq] at hcheck
      exact nomatch hcheck
    simp only [serverBuildMiddleware, hne, ne_eq, not_false_eq_true, if_true]
  | some check =>
    rw [serverBuildMiddleware_offline hcheck]
    cases middlewareConfigFor name rc.root with
    | error err => simp
    | ok cfg => exact hexact _ check hcheck cfg

private theorem chainError_eq_none (hexact : OfflineChecksExact E rc.root) (chain : Except String (List String)) :
    chainError E rc chain = none ↔ Buildable E rc chain := by
  cases chain with
  | error err => simp [chainError, Buildable]
  | ok names => simp [chainError, Buildable, List.findSome?_eq_none_iff, checkMiddlewareBuild_eq_none hexact]

private theorem applyGlobalMiddleware_eq_none (hexact : OfflineChecksExact E rc.root) :
    applyGlobalMiddleware E rc = none ↔ ∀ name ∈ getGlobalMiddleware rc, checkMiddlewareBuild E rc name = none := by
  simp [applyGlobalMiddleware, List.findSome?_eq_none_iff, checkMiddlewareBuild_eq_none hexact]

/-! ### Presets -/

private theorem presetError_eq_none {scope : String} {m : AnyMap} :
    presetError rc scope m = none ↔ PresetKnown rc m := by
  unfold presetError PresetKnown
  cases presetOf m with
  | none => simp
  | some preset => simp

private theorem validatePresets_eq_nil : validatePresets rc = [] ↔
    (∀ id route, rc.routes.lookup id = some route → PresetKnown rc route) ∧
    ∀ pfx group, (getRouteGroups rc).lookup pfx = some group → PresetKnown rc group := by
  unfold validatePresets
  rw [List.append_eq_nil_iff, List.filterMap_eq_nil_iff, List.filterMap_eq_nil_iff]
  simp only [presetError_eq_none]
  exact and_congr (forall_sortedSectionKeys (P := fun _ route => PresetKnown rc route))
    (forall_sortedSectionKeys (P := fun _ group => PresetKnown rc group))

private theorem expandPreset_eq_ok {preset : String} {names : List String} (h : expandPreset rc preset = .ok names) :
    preset ∈ getPresets rc := by
  unfold expandPreset at h
  split at h
  · exact AList.mem_of_lookup ‹_›
  · exact nomatch h

/-- A chain that is resolved has found the presets of its route and of the groups that match it. -/
private theorem resolveMiddlewareNames_eq_ok {route : AnyMap} {names : List String}
    (h : resolveMiddlewareNames E rc route = .ok names) :
    PresetKnown rc route ∧
    ∀ pfx group, (getRouteGroups rc).lookup pfx = some group → prefixMatches (routePath route) pfx = true →
      PresetKnown rc group := by
  obtain ⟨groupMW, hgroup, h⟩ := Outcome.bind_eq_ok h
  obtain ⟨presetMW, hpreset, -⟩ := Outcome.bind_eq_ok h
  refine ⟨fun preset heq => ?_, fun pfx group hlookup hmatches preset heq => ?_⟩
  · rw [presetMiddleware, heq] at hpreset
    cases hexpand : expandPreset rc preset with
    | error err =>
      simp only [hexpand] at hpreset
      exact nomatch hpreset
    | ok mws => exact expandPreset_eq_ok hexpand
  · obtain ⟨lists, hlists, -⟩ := Outcome.bind_eq_ok hgroup
    have hmem : pfx ∈ matchedGroups rc (routePath route) := by
      refine (List.perm_insertionSort _ _).mem_iff.2 (List.mem_filter.2 ⟨?_, hmatches⟩)
      exact AList.mem_keys.2 (AList.mem_of_lookup hlookup)
    obtain ⟨mws, hmws⟩ := Outcome.mapM_eq_ok hlists pfx hmem
    rw [hlookup, Option.getD_some, groupMiddleware, heq] at hmws
    exact expandPreset_eq_ok hmws

private theorem registerRoutes_middleware {rest : AnyMap → Option String} (hpresets : validatePresets rc = [])
    (hchains : ∀ id route, rc.routes.lookup id = some route → resolveMiddlewareChainFull E rc route = none)
    (err : String) : registerRoutes E rc rest ≠ some (.middleware err) := by
  unfold registerRoutes
  rw [hpresets]
  intro h
  obtain ⟨id, hid, hmap⟩ := List.exists_of_findSome?_eq_some h
  have hchain := forall_sortedSectionKeys
    (P := fun _ route => resolveMiddlewareChainFull E rc route = none).2 hchains id hid
  obtain ⟨bootErr, hboot, heq⟩ := Option.map_eq_some_iff.1 hmap
  unfold registerRoute at hboot
  rw [hchain] at hboot
  split_ifs at hboot
  · obtain rfl := Option.some.inj hboot
    exact nomatch heq
  · obtain ⟨text, -, rfl⟩ := Option.map_eq_some_iff.1 hboot
    exact nomatch heq

/-! ### The result -/

/-- A config that passes the check starts without an error of its middleware exactly when the groups that match no route
name presets that there are. -/
theorem validateMiddlewareBuilds_boots_iff (hexact : OfflineChecksExact E rc.root)
    (h : validateMiddlewareBuilds E rc = []) (rest : AnyMap → Option String) :
    Boots E rc rest ↔ UnmatchedGroupsKnown rc := by
  obtain ⟨hglobal, hroutes, hendpoints⟩ := validateMiddlewareBuilds_eq_nil.1 h
  constructor
  · intro hboots pfx group hgroup _ preset hpreset
    cases hpresets : validatePresets rc with
    | nil => exact (validatePresets_eq_nil.1 hpresets).2 pfx group hgroup preset hpreset
    | cons err errs =>
      refine absurd ?_ (hboots.routes err)
      rw [registerRoutes, hpresets]
  · intro hknown
    have hchains : ∀ id route, rc.routes.lookup id = some route → resolveMiddlewareChainFull E rc route = none :=
      fun id route hroute => (chainError_eq_none hexact _).2 (hroutes id route hroute)
    have hpresets : validatePresets rc = [] := by
      refine validatePresets_eq_nil.2 ⟨fun id route hroute => ?_, fun pfx group hgroup => ?_⟩
      · obtain ⟨names, hnames, -⟩ := hroutes id route hroute
        exact (resolveMiddlewareNames_eq_ok hnames).1
      · -- a group that matches a route was seen with that route
        by_cases hmatches : ∃ id route, rc.routes.lookup id = some route ∧ prefixMatches (routePath route) pfx = true
        · obtain ⟨id, route, hroute, hmatches⟩ := hmatches
          obtain ⟨names, hnames, -⟩ := hroutes id route hroute
          exact (resolveMiddlewareNames_eq_ok hnames).2 pfx group hgroup hmatches
        · refine hknown pfx group hgroup fun id route hroute => ?_
          rw [← Bool.not_eq_true]
          exact fun hmatch => hmatches ⟨id, route, hroute, hmatch⟩
    refine ⟨(applyGlobalMiddleware_eq_none hexact).2 hglobal, registerRoutes_middleware hpresets hchains, hchains, ?_⟩
    intro connID conn epName ep hconn hep
    exact (chainError_eq_none hexact _).2 (hendpoints connID conn epName ep hconn hep)

/-- A limiter must have a limit; the other factories succeed. -/
def limiterOnly : Externals where
  factory := fun baseType cfg _ => if baseType = "limiter" then limiterError cfg else none
  parse := fun baseType cfg => if baseType = "limiter" then limiterError cfg else none
  formatV := fun v => (v.bind Json.asStr).getD "<nil>"
where
  limiterError (cfg : Option AnyMap) : Option String :=
    match cfg.bind fun m => m.lookup "max" with
    | some (.num n) => if n < 1 then some "limiter: max=0 is not allowed; set an explicit max request count" else none
    | _ => some "limiter: max=0 is not allowed; set an explicit max request count"

private theorem limiterOnly_exact (root : AnyMap) : OfflineChecksExact limiterOnly root := by
  intro baseType check hcheck cfg
  unfold offlineCheck at hcheck
  split_ifs at hcheck with hnone
  · obtain rfl := Option.some.inj hcheck
    simp only [List.mem_cons, List.not_mem_nil, or_false] at hnone
    rcases hnone with rfl | rfl
    · exact ⟨fun _ => rfl, fun _ => rfl⟩
    · exact ⟨fun _ => rfl, fun _ => rfl⟩
  · obtain rfl := Option.some.inj hcheck
    exact Iff.rfl

/-- Two groups share a preset; one of them matches no route. -/
def sharedPreset : ResolvedConfig where
  root := GoMap.ofPairs [("global_middleware", .arr [.str "requestid"]),
    ("middleware_presets", .obj [("limited", .arr [.str "limiter:api"])]),
    ("middleware_instances", .obj [("limiter:api", .obj [("config", .obj [("max", .num 5)])])]),
    ("route_groups", .obj [("/api", .obj [("middleware_preset", .str "limited")]),
      ("/admin", .obj [("middleware_preset", .str "limited")])])]
  routes := GoMap.ofPairs [("routes/a.json", GoMap.ofPairs [("method", .str "GET"), ("path", .str "/api/a"),
    ("middleware", .arr [.str "auth.session"])])]
  workflows := ∅
  connections := GoMap.ofPairs [("connections/c.json", GoMap.ofPairs
    [("endpoints", .obj [("live", .obj [("middleware_preset", .str "limited")])])])]

theorem validateMiddlewareBuilds_boots_sharedPreset :
    validateMiddlewareBuilds limiterOnly sharedPreset = [] ∧ Boots limiterOnly sharedPreset (fun _ => none) := by
  have hvalid : validateMiddlewareBuilds limiterOnly sharedPreset = [] := by decide +kernel
  refine ⟨hvalid, (validateMiddlewareBuilds_boots_iff (limiterOnly_exact _) hvalid _).2 ?_⟩
  have hpresets : validatePresets sharedPreset = [] := by decide +kernel
  exact fun pfx group hgroup _ => (validatePresets_eq_nil.1 hpresets).2 pfx group hgroup

/-- A group without routes that names a preset that there is not. -/
def unmatchedGroup : ResolvedConfig where
  root := GoMap.ofPairs [("route_groups", .obj [("/admin", .obj [("middleware_preset", .str "missing")])])]
  routes := ∅
  workflows := ∅
  connections := ∅

theorem validateMiddlewareBuilds_not_boots : OfflineChecksExact limiterOnly unmatchedGroup.root ∧
    validateMiddlewareBuilds limiterOnly unmatchedGroup = [] ∧ ¬Boots limiterOnly unmatchedGroup (fun _ => none) := by
  refine ⟨limiterOnly_exact _, by decide +kernel, fun hboots => ?_⟩
  have hlength : (validatePresets unmatchedGroup).length = 1 := by decide +kernel
  obtain ⟨err, herr⟩ := List.length_eq_one_iff.1 hlength
  refine hboots.routes err ?_
  rw [registerRoutes, herr]

end Noda.Server
