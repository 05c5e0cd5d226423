import Noda.Config.Resolved
import Noda.Engine.Refs
import Noda.Lib.Duration
import Noda.Lib.Strconv

/-!
# Server settings

The readers of `settings.go` for the object `server` of the root file.  A number may come as a JSON number or as a text
that a variable was replaced by, so both forms are read; what is neither is an error.  What Go does with numbers,
addresses and durations is a parameter (`Readers`), but for `time.ParseDuration` itself.
-/

namespace Noda.Config

/-- Conversions and parsers of Go's library: `int(n)` of a `float64`, the text of an error of `time.ParseDuration`,
and whether `net.ParseCIDR` and `net.ParseIP` accept a text. -/
structure Readers where
  toInt : Rat → Int
  durationErr : String → String
  isCIDR : String → Bool
  isIP : String → Bool

/-- The verb `%T`. -/
def goType : Json → String
  | .null => "<nil>"
  | .bool _ => "bool"
  | .num _ => "float64"
  | .str _ => "string"
  | .arr _ => "[]interface {}"
  | .obj _ => "map[string]interface {}"

/-- `m[key].(bool)`, with `false` for anything else. -/
def boolField (m : AnyMap) (key : String) : Bool :=
  match m.lookup key with
  | some (.bool b) => b
  | _ => false

/-- The value at a key of the object `server`, if there are both. -/
def serverField (root : AnyMap) (key : String) : Option Json := (mapField root "server").bind (AList.lookup key)

variable (R : Readers) (root : AnyMap)

def serverInt (key : String) : Except String (Option Int) :=
  match serverField root key with
  | none => .ok none
  | some (.num n) => .ok (some (R.toInt n))
  | some (.str s) =>
    match Strconv.atoi (Engine.trimSpace s.toList) with
    | some i => .ok (some i)
    | none => .error ("server." ++ key ++ ": " ++ s.goQuote ++ " is not an integer")
  | some v => .error ("server." ++ key ++ ": expected integer or string, got " ++ goType v)

def serverDuration (key : String) : Except String (Option Int) :=
  match serverField root key with
  | none => .ok none
  | some (.str s) =>
    match Duration.parse s with
    | some d => .ok (some d)
    | none => .error ("server." ++ key ++ ": invalid duration " ++ s.goQuote ++ ": " ++ R.durationErr s)
  | some v => .error ("server." ++ key ++ ": expected duration string, got " ++ goType v)

structure TrustProxy where
  proxies : List String := []
  loopback : Bool
  linkLocal : Bool
  isPrivate : Bool
  header : String
  deriving DecidableEq

/-- The entries of `proxies`, from the index `i` on. -/
def proxyEntries : Nat → List Json → Except String (List String)
  | _, [] => .ok []
  | i, item :: rest =>
    match item with
    | .str s =>
      if '/' ∈ s.toList ∧ R.isCIDR s = false then
        .error ("server.trust_proxy.proxies[" ++ toString i ++ "]: invalid CIDR " ++ s.goQuote)
      else if '/' ∉ s.toList ∧ R.isIP s = false then
        .error ("server.trust_proxy.proxies[" ++ toString i ++ "]: invalid IP " ++ s.goQuote)
      else
        match proxyEntries (i + 1) rest with
        | .error e => .error e
        | .ok proxies => .ok (s :: proxies)
    | v => .error ("server.trust_proxy.proxies[" ++ toString i ++ "]: expected string, got " ++ goType v)

/-- The value at `trust_proxy` when it is an object that is enabled. -/
def trustProxyOf (cfg : AnyMap) : Except String (Option TrustProxy) :=
  match proxyEntries R 0 ((arrField cfg "proxies").getD []) with
  | .error e => .error e
  | .ok proxies =>
    let header := (strField cfg "header").getD ""
    let tp : TrustProxy :=
      { proxies, loopback := boolField cfg "loopback", linkLocal := boolField cfg "link_local"
        isPrivate := boolField cfg "private", header := if header = "" then "X-Forwarded-For" else header }
    if tp.proxies = [] ∧ tp.loopback = false ∧ tp.linkLocal = false ∧ tp.isPrivate = false then
      .error "server.trust_proxy: enabled but trusts nothing — set proxies or one of loopback/link_local/private"
    else .ok (some tp)

def serverTrustProxy : Except String (Option TrustProxy) :=
  match serverField root "trust_proxy" with
  | none => .ok none
  | some raw =>
    match raw.asMap with
    | none => .error ("server.trust_proxy: expected object, got " ++ goType raw)
    | some cfg => if boolField cfg "enabled" then trustProxyOf R cfg else .ok none

structure OpenAPISettings where
  enabled : Bool := false
  docs : Bool := true
  path : String := "/openapi.json"
  docsPath : String := "/docs"
  deriving DecidableEq

/-- The text at a key, or the default where there is none or an empty one. -/
def textOr (m : AnyMap) (key d : String) : String :=
  match strField m key with
  | some v => if v = "" then d else v
  | none => d

/-- The settings that the object `openapi` has. -/
def readOpenAPI (oa : AnyMap) : OpenAPISettings where
  enabled := boolField oa "enabled"
  docs := match oa.lookup "docs" with
    | some (.bool v) => v
    | _ => true
  path := textOr oa "path" "/openapi.json"
  docsPath := textOr oa "docs_path" "/docs"

/-- What is wrong with the paths. -/
def OpenAPISettings.err (s : OpenAPISettings) : Option String :=
  if ¬['/'] <+: s.path.toList then some ("server.openapi.path: " ++ s.path.goQuote ++ " must start with \"/\"")
  else if ¬['/'] <+: s.docsPath.toList then
    some ("server.openapi.docs_path: " ++ s.docsPath.goQuote ++ " must start with \"/\"")
  else if s.path = s.docsPath then
    some ("server.openapi: path and docs_path must differ (both " ++ s.path.goQuote ++ ")")
  else none

/-- `ServerOpenAPI`: the settings are there even with an error. -/
def serverOpenAPI : OpenAPISettings × Option String :=
  match serverField root "openapi" with
  | none => ({}, none)
  | some raw =>
    match raw.asMap with
    | none => ({}, some ("server.openapi: expected object, got " ++ goType raw))
    | some oa => (readOpenAPI oa, (readOpenAPI oa).err)

end Noda.Config
