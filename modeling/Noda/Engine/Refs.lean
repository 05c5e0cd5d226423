import Noda.Engine.Config

/-!
# Template expressions and the outputs a config refers to

`expr.Parse` cuts a string into literal text and `{{ }}` expressions; `extractConfigRefs` collects the identifiers
that occur in the expressions of a config.  The eviction tracker uses them as the nodes whose output the config reads.
Strings are read as lists of characters; every character the scanners look for is a single byte in UTF-8.
-/

namespace Noda.Engine

/-- A portion of a parsed template string. -/
inductive Segment where
  | literal (text : String)
  | expression (text : String)
  deriving DecidableEq, Repr

/-- The result of `expr.Parse`. -/
structure ParsedExpression where
  raw : String
  segments : List Segment
  isLiteral : Bool := false
  isSimple : Bool := false
  deriving DecidableEq, Repr

/-- The two errors of `expr.Parse`; `pos` is the byte position of the opening braces. -/
inductive ParseError where
  | unclosed (pos : Nat) (input : String)
  | empty (pos : Nat)
  deriving DecidableEq, Repr

/-- `unicode.IsSpace`. -/
def isSpace (c : Char) : Bool :=
  c.toNat ∈ [0x09, 0x0A, 0x0B, 0x0C, 0x0D, 0x20, 0x85, 0xA0, 0x1680, 0x2028, 0x2029, 0x202F, 0x205F, 0x3000] ||
    (0x2000 ≤ c.toNat && c.toNat ≤ 0x200A)

/-- `strings.TrimSpace`. -/
def trimSpace (cs : List Char) : List Char :=
  ((cs.dropWhile isSpace).reverse.dropWhile isSpace).reverse

/-- The characters before the first `{{` and those after it. -/
def splitOpen : List Char → Option (List Char × List Char)
  | '{' :: '{' :: cs => some ([], cs)
  | c :: cs =>
    match splitOpen cs with
    | none => none
    | some (before, after) => some (c :: before, after)
  | [] => none

/-- `findClosingBraces`: the characters before the closing `}}` and those after it.  Braces nest, and text inside
string literals (`quote`) is skipped with its backslash escapes. -/
def splitClose : Nat → Option Char → List Char → Option (List Char × List Char)
  | _, _, [] => none
  | depth, some q, c :: cs =>
    if c = '\\' then
      match cs with
      | [] => none
      | e :: cs =>
        match splitClose depth (some q) cs with
        | none => none
        | some (before, after) => some (c :: e :: before, after)
    else
      match splitClose depth (if c = q then none else some q) cs with
      | none => none
      | some (before, after) => some (c :: before, after)
  | depth, none, c :: cs =>
    if c = '"' ∨ c = '\'' then
      match splitClose depth (some c) cs with
      | none => none
      | some (before, after) => some (c :: before, after)
    else if c = '{' then
      match splitClose (depth + 1) none cs with
      | none => none
      | some (before, after) => some (c :: before, after)
    else if c = '}' ∧ depth = 0 ∧ cs.head? = some '}' then some ([], cs.tail)
    else
      match splitClose (if c = '}' then depth - 1 else depth) none cs with
      | none => none
      | some (before, after) => some (c :: before, after)

/-- The length of a text in bytes. -/
def byteLength (cs : List Char) : Nat := cs.foldl (fun n c => n + c.utf8Size) 0

/-- The loop of `expr.Parse` over the remaining text; `fuel` is the length of the input. -/
def parseSegments (input : String) : Nat → List Char → List Segment → Except ParseError (List Segment)
  | _, [], acc => .ok acc
  | 0, _ :: _, acc => .ok acc
  | fuel + 1, remaining, acc =>
    match splitOpen remaining with
    | none => .ok (acc ++ [.literal (String.ofList remaining)])
    | some (before, after) =>
      let acc := if before = [] then acc else acc ++ [.literal (String.ofList before)]
      let pos := byteLength input.toList - byteLength remaining + byteLength before
      match splitClose 0 none after with
      | none => .error (.unclosed pos input)
      | some (text, rest) =>
        if trimSpace text = [] then .error (.empty pos)
        else parseSegments input fuel rest (acc ++ [.expression (String.ofList (trimSpace text))])

/-- `expr.Parse`. -/
def parseExpr (input : String) : Except ParseError ParsedExpression :=
  match splitOpen input.toList with
  | none => .ok { raw := input, segments := [.literal input], isLiteral := true }
  | some _ =>
    match parseSegments input input.toList.length input.toList [] with
    | .error e => .error e
    | .ok segments =>
      .ok { raw := input, segments, isSimple := match segments with | [.expression _] => true | _ => false }

/-- `isIdentChar`. -/
def isIdentChar (c : Char) : Bool := (c.isAlphanum || c == '_' || c == '-')

/-- The maximal runs of identifier characters and dots that start with an identifier character. -/
def identRuns : Nat → List Char → List (List Char)
  | 0, _ => []
  | _, [] => []
  | fuel + 1, c :: cs =>
    if isIdentChar c then
      let more := fun c : Char => isIdentChar c || c == '.'
      (c :: cs.takeWhile more) :: identRuns fuel (cs.dropWhile more)
    else identRuns fuel cs

/-- `extractIdentifiers`: `nodes.X` refers to `X`, any other dotted name to its first part. -/
def extractIdentifiers (expression : String) : List String :=
  (identRuns expression.toList.length expression.toList).map fun ident =>
    let first := fun cs : List Char => String.ofList (cs.takeWhile (· ≠ '.'))
    if "nodes.".toList <+: ident then first (ident.drop "nodes.".length) else first ident

mutual

/-- `walkConfigStrings`: the strings of a config map, those directly inside its arrays included (an array inside an
array is not visited). -/
def walkConfigStrings : Config → List String
  | [] => []
  | (_, v) :: fields => walkValueStrings v ++ walkConfigStrings fields

def walkValueStrings : Value → List String
  | .str s => [s]
  | .obj fields => walkConfigStrings fields
  | .arr items => walkItemStrings items
  | _ => []

def walkItemStrings : List Value → List String
  | [] => []
  | .str s :: items => s :: walkItemStrings items
  | .obj fields :: items => walkConfigStrings fields ++ walkItemStrings items
  | _ :: items => walkItemStrings items

end

/-- The identifiers of the expressions of one string; a literal or malformed string has none. -/
def stringRefs (s : String) : List String :=
  match parseExpr s with
  | .error _ => []
  | .ok parsed =>
    if parsed.isLiteral then []
    else parsed.segments.flatMap fun
      | .literal _ => []
      | .expression e => extractIdentifiers e

/-- `extractConfigRefs`, as a list without repetitions. -/
def extractConfigRefs (config : Config) : List String :=
  ((walkConfigStrings config).flatMap stringRefs).dedup

end Noda.Engine
