import Mathlib.Data.List.Infix
import Noda.Server.Groups

/-!
# The OpenAPI document

The loop of `Generate` that makes an operation for each route, with the security of the operations.  What an operation
says of parameters, bodies and responses is left out, and so are the components.

`hasJWTMiddleware` looks for `auth.jwt` in the list of the route and, if it is not there, at the name of the preset.
The server goes by the groups, by what the presets have, and by the type of an instance.
`security_right_iff`: for which routes the two agree.
-/

namespace Noda.Openapi

open Noda.Config Noda.Server

/-! ### Operations -/

inductive Method where
  | get
  | post
  | put
  | patch
  | delete
  deriving DecidableEq, Repr

/-- `unicode.ToUpper`, as far as it leads to ASCII: beyond ASCII only two letters have their upper case there. -/
def upperChar (c : Char) : Char := if c = 'ı' then 'I' else if c = 'ſ' then 'S' else c.toUpper

/-- The cases of the `switch`. -/
def methodOf (method : String) : Option Method :=
  match String.ofList (method.toList.map upperChar) with
  | "GET" => some .get
  | "POST" => some .post
  | "PUT" => some .put
  | "PATCH" => some .patch
  | "DELETE" => some .delete
  | _ => none

/-- A segment of a path; a parameter is put into braces, without its question mark. -/
def convertSegment : List Char → List Char
  | ':' :: name => '\x7b' :: (if name.getLast? = some '?' then name.dropLast else name) ++ ['\x7d']
  | part => part

def fiberToOpenAPIPath (path : String) : String :=
  String.ofList (['/'].intercalate ((path.toList.splitOn '/').map convertSegment))

/-- `strings.Contains`. -/
def contains (s sub : String) : Bool := decide (sub.toList <:+: s.toList)

def hasJWTMiddleware (route : AnyMap) : Bool :=
  if "auth.jwt" ∈ stringsField route "middleware" then true
  else
    match strField route "middleware_preset" with
    | some preset => contains preset "auth"
    | none => false

/-- An operation, with the route it is made for.  The security lists the schemes that it requires. -/
structure Operation where
  route : AnyMap
  summary : String
  tags : List String
  security : List String

def operation (route : AnyMap) : Operation where
  route := route
  summary := (strField route "summary").getD ""
  tags := stringsField route "tags"
  security := if hasJWTMiddleware route then ["bearerAuth"] else []

/-! ### The document -/

/-- `openapi3.PathItem`: the operations of a path. -/
structure PathItem where
  operations : Method → Option Operation

def PathItem.empty : PathItem := ⟨fun _ => none⟩

def PathItem.set (item : PathItem) (method : Method) (op : Operation) : PathItem :=
  ⟨fun m => if m = method then some op else item.operations m⟩

/-- `NormalizeRoutes`. -/
def normalizeRoutes (data : AnyMap) : List AnyMap :=
  if "method" ∈ data then [data]
  else (data.toPairs.filterMap fun e => e.2.asMap).filter fun m => "method" ∈ m

/-- The routes in the order of the loops. -/
def allRoutes (rc : ResolvedConfig) : List AnyMap := rc.routes.toPairs.flatMap fun e => normalizeRoutes e.2

/-- `Paths.Find` of the library: the path under which an item for a path is found. -/
abbrev Find := GoMap PathItem → String → Option String

variable (find : Find)

/-- A round of the loop. -/
def addRoute (paths : GoMap PathItem) (route : AnyMap) : GoMap PathItem :=
  let method := (strField route "method").getD ""
  if method = "" ∨ routePath route = "" then paths
  else
    let oaPath := fiberToOpenAPIPath (routePath route)
    let (key, item) := match find paths oaPath with
      | some key => (key, paths.getD key PathItem.empty)
      | none => (oaPath, PathItem.empty)
    paths.insert key (match methodOf method with
      | some m => item.set m (operation route)
      | none => item)

/-- The paths of the document. -/
def generate (rc : ResolvedConfig) : GoMap PathItem := (allRoutes rc).foldl (addRoute find) ∅

def Documented (paths : GoMap PathItem) (op : Operation) : Prop :=
  ∃ path item method, paths.lookup path = some item ∧ item.operations method = some op

/-! ### Security -/

def IsJwt (name : String) : Prop := (parseMiddlewareName name).1 = "auth.jwt"

/-- The operation requires the token exactly if the chain of its route checks it. -/
def SecurityRight (chain : List String) (op : Operation) : Prop :=
  "bearerAuth" ∈ op.security ↔ ∃ name ∈ chain, IsJwt name

/-- The route names a preset with `auth` in its name. -/
def PresetSaysAuth (route : AnyMap) : Prop :=
  ∃ preset, strField route "middleware_preset" = some preset ∧ "auth".toList <:+: preset.toList

/-- The route lists `auth.jwt` itself; or its preset says so in its name, and the middleware is listed for the route; or
the preset does not, and it is not. -/
def Foreseen (rc : ResolvedConfig) (route : AnyMap) : Prop :=
  "auth.jwt" ∈ stringsField route "middleware" ∨
  (PresetSaysAuth route ∧ ∃ name ∈ listed rc route, IsJwt name) ∨
  (¬PresetSaysAuth route ∧ ∀ name ∈ listed rc route, ¬IsJwt name)

private theorem hasJWTMiddleware_iff (route : AnyMap) :
    hasJWTMiddleware route = true ↔ "auth.jwt" ∈ stringsField route "middleware" ∨ PresetSaysAuth route := by
  unfold hasJWTMiddleware PresetSaysAuth contains
  split_ifs with hlist
  · simp [hlist]
  · cases strField route "middleware_preset" with
    | none => simp [hlist]
    | some preset => simp [hlist]

private theorem mem_security_iff (route : AnyMap) :
    "bearerAuth" ∈ (operation route).security ↔ hasJWTMiddleware route = true := by
  unfold operation
  cases hasJWTMiddleware route <;> simp

private theorem documented_addRoute {paths : GoMap PathItem} {route : AnyMap} {op : Operation}
    (h : Documented (addRoute find paths route) op) : Documented paths op ∨ op = operation route := by
  obtain ⟨path, item, method, hlookup, hop⟩ := h
  unfold addRoute at hlookup
  simp only at hlookup
  split_ifs at hlookup
  · exact .inl ⟨path, item, method, hlookup, hop⟩
  · -- the item that is found has operations of the document, a new one has none
    obtain ⟨key, old, hfound, hold⟩ : ∃ key old,
        (match find paths (fiberToOpenAPIPath (routePath route)) with
          | some key => (key, paths.getD key PathItem.empty)
          | none => (fiberToOpenAPIPath (routePath route), PathItem.empty)) = (key, old) ∧
        ∀ m op, old.operations m = some op → Documented paths op := by
      cases find paths (fiberToOpenAPIPath (routePath route)) with
      | none => exact ⟨_, _, rfl, fun m op hm => by cases hm⟩
      | some key =>
        refine ⟨key, _, rfl, fun m op hm => ?_⟩
        cases hkey : paths.lookup key with
        | none =>
          rw [AList.getD, hkey] at hm
          cases hm
        | some old =>
          rw [AList.getD_of_lookup hkey] at hm
          exact ⟨key, old, m, hkey, hm⟩
    rw [hfound] at hlookup
    by_cases hpath : path = key
    · rw [hpath, AList.lookup_insert] at hlookup
      cases hlookup
      cases hmethod : methodOf ((strField route "method").getD "") with
      | none =>
        simp only [hmethod] at hop
        exact .inl (hold method op hop)
      | some m =>
        simp only [hmethod, PathItem.set] at hop
        split_ifs at hop
        · exact .inr (Option.some.inj hop).symm
        · exact .inl (hold method op hop)
    · rw [AList.lookup_insert_ne hpath] at hlookup
      exact .inl ⟨path, item, method, hlookup, hop⟩

private theorem documented_generate {rc : ResolvedConfig} {op : Operation} (h : Documented (generate find rc) op) :
    ∃ route ∈ allRoutes rc, op = operation route := by
  have hloop : ∀ (routes : List AnyMap) (paths : GoMap PathItem), Documented (routes.foldl (addRoute find) paths) op →
      Documented paths op ∨ ∃ route ∈ routes, op = operation route := by
    intro routes
    induction routes with
    | nil => exact fun paths h => .inl h
    | cons route routes ih =>
      intro paths h
      rcases ih _ h with h | ⟨route', hmem, heq⟩
      · rcases documented_addRoute find h with h | heq
        · exact .inl h
        · exact .inr ⟨route, List.mem_cons_self, heq⟩
      · exact .inr ⟨route', List.mem_cons_of_mem route hmem, heq⟩
  rcases hloop (allRoutes rc) ∅ h with ⟨path, item, method, hlookup, -⟩ | hroute
  · cases hlookup
  · exact hroute

/-- An operation of the document has the right security exactly when its route is one that `hasJWTMiddleware`
foresees. -/
theorem security_right_iff (E : Externals) (rc : ResolvedConfig) (op : Operation) (chain : List String)
    (hop : Documented (generate find rc) op) (hchain : resolveMiddlewareNames E rc op.route = .ok chain) :
    SecurityRight chain op ↔ Foreseen rc op.route := by
  obtain ⟨route, -, rfl⟩ := documented_generate find hop
  have hlisted : (∃ name ∈ chain, IsJwt name) ↔ ∃ name ∈ listed rc route, IsJwt name := by
    rw [(resolveMiddlewareNames_eq hchain).1]
    simp only [mem_keepFirst]
    rfl
  have hown : "auth.jwt" ∈ stringsField route "middleware" → ∃ name ∈ listed rc route, IsJwt name := by
    intro hmem
    refine ⟨"auth.jwt", mem_listed.2 (.inr (List.mem_append_right _ hmem)), ?_⟩
    unfold IsJwt
    decide
  unfold SecurityRight
  rw [mem_security_iff, hasJWTMiddleware_iff, hlisted]
  show _ ↔ Foreseen rc route
  unfold Foreseen
  constructor
  · intro h
    by_cases hmem : "auth.jwt" ∈ stringsField route "middleware"
    · exact .inl hmem
    · by_cases hpreset : PresetSaysAuth route
      · exact .inr (.inl ⟨hpreset, h.1 (.inr hpreset)⟩)
      · refine .inr (.inr ⟨hpreset, fun name hname hjwt => ?_⟩)
        rcases h.2 ⟨name, hname, hjwt⟩ with h | h
        · exact hmem h
        · exact hpreset h
  · rintro (hmem | ⟨hpreset, hjwt⟩ | ⟨hpreset, hnone⟩)
    · exact ⟨fun _ => hown hmem, fun _ => .inl hmem⟩
    · exact ⟨fun _ => hjwt, fun _ => .inr hpreset⟩
    · constructor
      · rintro (hmem | hyes)
        · exact hown hmem
        · exact absurd hyes hpreset
      · rintro ⟨name, hname, hjwt⟩
        exact absurd hjwt (hnone name hname)

/-- A path is found under itself. -/
def findSame : Find := fun paths path => if path ∈ paths then some path else none

def withPresets (group route : String) : ResolvedConfig where
  root := GoMap.ofPairs [("middleware_presets", .obj [("authenticated", .arr [.str "auth.jwt"]), ("public", .arr [])]),
    ("route_groups", .obj [("/api", .obj [("middleware_preset", .str group)])])]
  routes := GoMap.ofPairs [("routes/me.json", GoMap.ofPairs [("id", .str "me"), ("method", .str "GET"),
    ("path", .str "/api/me"), ("middleware_preset", .str route), ("trigger", .obj [("workflow", .str "me")])])]
  workflows := ∅
  connections := ∅

/-- The operation at a path of the document. -/
def operationAt (paths : GoMap PathItem) (path : String) (method : Method) : Option Operation :=
  (paths.lookup path).bind fun item => item.operations method

private theorem documented_of_operationAt {paths : GoMap PathItem} {path : String} {method : Method} {op : Operation}
    (h : operationAt paths path method = some op) : Documented paths op := by
  obtain ⟨item, hitem, hop⟩ := Option.bind_eq_some_iff.1 h
  exact ⟨path, item, method, hitem, hop⟩

/-- The preset of the route has the middleware, and says so. -/
theorem security_right_preset : ∃ op, Documented (generate findSame (withPresets "public" "authenticated")) op ∧
    resolveMiddlewareNames limiterOnly (withPresets "public" "authenticated") op.route = .ok ["auth.jwt"] ∧
    SecurityRight ["auth.jwt"] op := by
  have hdoc : (operationAt (generate findSame (withPresets "public" "authenticated")) "/api/me" .get).any fun op =>
      resolveMiddlewareNames limiterOnly (withPresets "public" "authenticated") op.route = .ok ["auth.jwt"] ∧
      strField op.route "middleware_preset" = some "authenticated" ∧
      "auth.jwt" ∈ listed (withPresets "public" "authenticated") op.route := by decide +kernel
  obtain ⟨op, hop, hfacts⟩ := (Option.any_eq_true _ _).1 hdoc
  obtain ⟨hchain, hpreset, hlisted⟩ := of_decide_eq_true hfacts
  have hdocumented := documented_of_operationAt hop
  refine ⟨op, hdocumented, hchain, (security_right_iff _ _ _ _ _ hdocumented hchain).2 (.inr (.inl ⟨?_, ?_⟩))⟩
  · exact ⟨"authenticated", hpreset, by decide⟩
  · exact ⟨"auth.jwt", hlisted, by unfold IsJwt; decide⟩

/-- The group has the middleware, and the document does not say so. -/
theorem not_security_right_group : ∃ op, Documented (generate findSame (withPresets "authenticated" "public")) op ∧
    resolveMiddlewareNames limiterOnly (withPresets "authenticated" "public") op.route = .ok ["auth.jwt"] ∧
    ¬SecurityRight ["auth.jwt"] op := by
  have hdoc : (operationAt (generate findSame (withPresets "authenticated" "public")) "/api/me" .get).any fun op =>
      resolveMiddlewareNames limiterOnly (withPresets "authenticated" "public") op.route = .ok ["auth.jwt"] ∧
      op.security = [] := by decide +kernel
  obtain ⟨op, hop, hfacts⟩ := (Option.any_eq_true _ _).1 hdoc
  obtain ⟨hchain, hsecurity⟩ := of_decide_eq_true hfacts
  refine ⟨op, documented_of_operationAt hop, hchain, fun hright => ?_⟩
  have hmem := hright.2 ⟨"auth.jwt", List.mem_singleton_self _, by unfold IsJwt; decide⟩
  rw [hsecurity] at hmem
  cases hmem

end Noda.Openapi
