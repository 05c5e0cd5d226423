import Noda.Config.ResolveRefs
import Noda.Lib.Rewrite
import Noda.Lib.Strconv

/-!
# Environment variables and variables in the config

`$env` in the root config and `$var` in all files are replaced before anything else is looked at.  A reference is a text
that matches the pattern `\{\{\s*\$fn\(\s*'([^']+)'\s*\)\s*\}\}`.  Each string of a file is read once from left to
right, and a reference to a name that is not known is left and reported with the place of the string.

`$env` comes first, so that a reference to a variable in the value of an environment variable is replaced as well; the
value of a variable is not read again.  A config without variables is not read for `$var` at all.  `references_resolved`
says this of every config.
-/

namespace Noda.Config

open Rewrite

/-! ### The pattern -/

/-- `\s`. -/
def isBlank (c : Char) : Bool := c ∈ ['\t', '\n', '\x0c', '\r', ' ']

/-- The pattern at the beginning of a text: the name, and what comes behind the match. -/
def matchReference (fn : List Char) (s : List Char) : Option (List Char × List Char) := do
  let s ← ['{', '{'].isPrefixOf? s
  let s ← ('$' :: fn ++ ['(']).isPrefixOf? (s.dropWhile isBlank)
  let s ← ['\''].isPrefixOf? (s.dropWhile isBlank)
  let name := s.takeWhile (· ≠ '\'')
  if name = [] then none
  else
    let s ← ['\''].isPrefixOf? (s.dropWhile (· ≠ '\''))
    let s ← [')'].isPrefixOf? (s.dropWhile isBlank)
    let s ← ['}', '}'].isPrefixOf? (s.dropWhile isBlank)
    return (name, s)

/-- A reference with its blanks. -/
def referenceText (fn name w₁ w₂ w₃ w₄ : List Char) : List Char :=
  '{' :: '{' :: w₁ ++ '$' :: fn ++ '(' :: w₂ ++ '\'' :: name ++ '\'' :: w₃ ++ ')' :: w₄ ++ ['}', '}']

def IsReference (fn name text : List Char) : Prop :=
  name ≠ [] ∧ '\'' ∉ name ∧ ∃ w₁ w₂ w₃ w₄, (∀ c ∈ w₁ ++ w₂ ++ w₃ ++ w₄, isBlank c = true) ∧
    text = referenceText fn name w₁ w₂ w₃ w₄

private theorem isPrefixOf?_eq_some {p s r : List Char} : p.isPrefixOf? s = some r ↔ s = p ++ r := by
  induction p generalizing s with
  | nil => simp [List.isPrefixOf?, eq_comm]
  | cons c p ih =>
    cases s with
    | nil => simp [List.isPrefixOf?]
    | cons d s =>
      by_cases hcd : c = d
      · subst hcd
        simp [List.isPrefixOf?, ih]
      · simp [List.isPrefixOf?, hcd, Ne.symm hcd]

private theorem dropWhile_append_cons {p : Char → Bool} {w s : List Char} {d : Char} (hw : ∀ c ∈ w, p c = true)
    (hd : p d = false) : (w ++ d :: s).dropWhile p = d :: s := by
  induction w with
  | nil => simp [hd]
  | cons c w ih =>
    have hc : p c = true := hw c List.mem_cons_self
    rw [List.cons_append, List.dropWhile_cons, if_pos hc]
    exact ih fun c hc => hw c (List.mem_cons_of_mem _ hc)

private theorem takeWhile_append_cons {p : Char → Bool} {w s : List Char} {d : Char} (hw : ∀ c ∈ w, p c = true)
    (hd : p d = false) : (w ++ d :: s).takeWhile p = w := by
  induction w with
  | nil => simp [hd]
  | cons c w ih =>
    have hc : p c = true := hw c List.mem_cons_self
    rw [List.cons_append, List.takeWhile_cons, if_pos hc, ih fun c hc => hw c (List.mem_cons_of_mem _ hc)]

/-- A text up to the first letter without a property. -/
private theorem split_dropWhile (p : Char → Bool) {s r : List Char} (h : s.dropWhile p = r) :
    ∃ w, s = w ++ r ∧ ∀ c ∈ w, p c = true :=
  ⟨s.takeWhile p, by rw [← h, List.takeWhile_append_dropWhile], fun _ hc => List.mem_takeWhile_imp hc⟩

private theorem matchReference_iff {fn name s rest : List Char} :
    matchReference fn s = some (name, rest) ↔ ∃ text, IsReference fn name text ∧ s = text ++ rest := by
  simp only [matchReference, Option.bind_eq_bind, Option.bind_eq_some_iff, isPrefixOf?_eq_some]
  constructor
  · rintro ⟨s₁, rfl, s₂, h₂, s₃, h₃, h⟩
    obtain ⟨w₁, rfl, hw₁⟩ := split_dropWhile _ h₂
    obtain ⟨w₂, rfl, hw₂⟩ := split_dropWhile _ h₃
    split at h
    · cases h
    · rename_i hne
      simp only [Option.bind_eq_some_iff, isPrefixOf?_eq_some] at h
      obtain ⟨s₄, h₄, s₅, h₅, s₆, h₆, heq⟩ := h
      cases heq
      obtain ⟨w₃, rfl, hw₃⟩ := split_dropWhile _ h₅
      obtain ⟨w₄, rfl, hw₄⟩ := split_dropWhile _ h₆
      have hs₃ : s₃ = s₃.takeWhile (· ≠ '\'') ++ s₃.dropWhile (· ≠ '\'') := List.takeWhile_append_dropWhile.symm
      have hquote : '\'' ∉ s₃.takeWhile (· ≠ '\'') := fun hmem => by simpa using List.mem_takeWhile_imp hmem
      rw [h₄] at hs₃
      refine ⟨_, ⟨hne, hquote, w₁, w₂, w₃, w₄, fun c hc => ?_, rfl⟩, ?_⟩
      · simp only [List.mem_append] at hc
        rcases hc with ((hc | hc) | hc) | hc
        · exact hw₁ c hc
        · exact hw₂ c hc
        · exact hw₃ c hc
        · exact hw₄ c hc
      · nth_rewrite 1 [hs₃]
        simp [referenceText]
  · rintro ⟨text, ⟨hne, hquote, w₁, w₂, w₃, w₄, hblank, rfl⟩, rfl⟩
    have hw : ∀ w, w ⊆ w₁ ++ w₂ ++ w₃ ++ w₄ → ∀ c ∈ w, isBlank c = true := fun w hsub c hc => hblank c (hsub hc)
    have hname : ∀ c ∈ name, decide (c ≠ '\'') = true := by
      intro c hc
      rw [decide_eq_true_eq]
      rintro rfl
      exact hquote hc
    refine ⟨w₁ ++ '$' :: (fn ++ '(' :: (w₂ ++ '\'' :: (name ++ '\'' :: (w₃ ++ ')' :: (w₄ ++ '}' :: '}' :: rest))))), ?_,
      w₂ ++ '\'' :: (name ++ '\'' :: (w₃ ++ ')' :: (w₄ ++ '}' :: '}' :: rest))), ?_,
      name ++ '\'' :: (w₃ ++ ')' :: (w₄ ++ '}' :: '}' :: rest)), ?_, ?_⟩
    · simp [referenceText]
    · rw [dropWhile_append_cons (hw w₁ fun c hc => by simp [hc]) rfl]
      simp
    · rw [dropWhile_append_cons (hw w₂ fun c hc => by simp [hc]) rfl]
      rfl
    · rw [takeWhile_append_cons hname (by decide), if_neg hne, dropWhile_append_cons hname (by decide)]
      simp only [Option.bind_eq_some_iff, isPrefixOf?_eq_some]
      refine ⟨w₃ ++ ')' :: (w₄ ++ '}' :: '}' :: rest), rfl, w₄ ++ '}' :: '}' :: rest, ?_, rest, ?_, rfl⟩
      · rw [dropWhile_append_cons (hw w₃ fun c hc => by simp [hc]) rfl]
        rfl
      · rw [dropWhile_append_cons (hw w₄ fun c hc => by simp [hc]) rfl]
        rfl

/-! ### Reading a string -/

/-- The reference that begins a text. -/
def referenceAt (fn s : List Char) : Option (ℕ × List Char) :=
  (matchReference fn s).map fun m => (s.length - m.2.length - 1, m.1)

/-- A text read from left to right: letters where no reference begins, and references. -/
inductive Parsed (fn : List Char) : List Char → List (Piece Char (List Char)) → Prop where
  | nil : Parsed fn [] []
  | letter {c : Char} {s : List Char} {ps : List (Piece Char (List Char))}
      (hnone : ∀ name text, IsReference fn name text → ¬ text <+: c :: s) (hs : Parsed fn s ps) :
      Parsed fn (c :: s) (.letter c :: ps)
  | token {name text s : List Char} {ps : List (Piece Char (List Char))} (href : IsReference fn name text)
      (hs : Parsed fn s ps) : Parsed fn (text ++ s) (.token text name :: ps)

variable {fn name text s : List Char}

theorem IsReference.exists_cons (h : IsReference fn name text) : ∃ c t, text = c :: t := by
  obtain ⟨-, -, w₁, w₂, w₃, w₄, -, rfl⟩ := h
  exact ⟨'{', _, rfl⟩

private theorem referenceAt_eq_none :
    referenceAt fn s = none ↔ ∀ name text, IsReference fn name text → ¬ text <+: s := by
  rw [referenceAt, Option.map_eq_none_iff]
  constructor
  · rintro hnone name text href ⟨rest, rfl⟩
    rw [matchReference_iff.2 ⟨text, href, rfl⟩] at hnone
    cases hnone
  · intro h
    rw [Option.eq_none_iff_forall_not_mem]
    rintro ⟨name, rest⟩ hmem
    obtain ⟨text, href, rfl⟩ := matchReference_iff.1 hmem
    exact h name text href (List.prefix_append _ _)

private theorem referenceAt_eq_some {c : Char} {t : List Char} :
    referenceAt fn (c :: t ++ s) = some (t.length, name) ↔ IsReference fn name (c :: t) := by
  rw [referenceAt, Option.map_eq_some_iff]
  constructor
  · rintro ⟨⟨name', rest⟩, hmatch, heq⟩
    obtain ⟨hlen, rfl⟩ := Prod.mk.inj heq
    obtain ⟨text, href, htext⟩ := matchReference_iff.1 hmatch
    obtain ⟨d, u, rfl⟩ := href.exists_cons
    have hlength := congrArg List.length htext
    simp only [List.length_append, List.length_cons] at hlength hlen
    have hsame : (c :: t).length = (d :: u).length := by
      rw [List.length_cons, List.length_cons]
      omega
    rw [(List.append_inj htext hsame).1]
    exact href
  · intro href
    refine ⟨(name, s), matchReference_iff.2 ⟨_, href, rfl⟩, ?_⟩
    simp only [List.length_append, List.length_cons, Prod.mk.injEq, and_true]
    omega

private theorem within_referenceAt (fn : List Char) : Within (referenceAt fn) := by
  intro c s n b h
  obtain ⟨m, -, heq⟩ := Option.map_eq_some_iff.1 h
  have hn := congrArg Prod.fst heq
  simp only [List.length_cons] at hn
  omega

private theorem parsed_iff {ps : List (Piece Char (List Char))} :
    Parsed fn s ps ↔ ps = pieces (referenceAt fn) 0 s := by
  rw [← reading_iff (within_referenceAt fn)]
  constructor
  · intro h
    induction h with
    | nil => exact .nil
    | letter hnone hs ih => exact .letter (referenceAt_eq_none.2 hnone) ih
    | token href hs ih =>
      obtain ⟨c, t, rfl⟩ := href.exists_cons
      exact .token (referenceAt_eq_some.2 href) ih
  · intro h
    induction h with
    | nil => exact .nil
    | letter hfind hs ih => exact .letter (referenceAt_eq_none.1 hfind) ih
    | token hfind hs ih => exact .token (referenceAt_eq_some.1 hfind) ih

theorem Parsed.isReference {ps : List (Piece Char (List Char))} (h : Parsed fn s ps) (hmem : .token text name ∈ ps) :
    IsReference fn name text := by
  induction h with
  | nil => cases hmem
  | letter hnone hs ih =>
    rcases List.mem_cons.1 hmem with heq | hmem
    · cases heq
    · exact ih hmem
  | token href hs ih =>
    rcases List.mem_cons.1 hmem with heq | hmem
    · cases heq
      exact href
    · exact ih hmem

/-! ### Replacing -/

/-- What `$env` and `$var` differ in: their names, where values come from, and the errors. -/
structure Source where
  fn : List Char
  get : String → Option String
  unknown : String → String → String

/-- `FindStringSubmatch`: the name of the first reference. -/
def findSubmatch (fn : List Char) : List Char → Option (List Char)
  | [] => none
  | c :: s =>
    match matchReference fn (c :: s) with
    | some (name, _) => some name
    | none => findSubmatch fn s

/-- The function that `ReplaceAllStringFunc` applies to a match, with its error. -/
def replaceMatch (L : Source) (path : String) (text : List Char) : List Char × List String :=
  match findSubmatch L.fn text with
  | none => (text, [])
  | some name =>
    match L.get (String.ofList name) with
    | none => (text, [L.unknown (String.ofList name) path])
    | some value => (value.toList, [])

def replacePiece (L : Source) (path : String) : Piece Char (List Char) → List Char × List String
  | .letter c => ([c], [])
  | .token text _ => replaceMatch L path text

/-- `resolveString`, `resolveVarString`. -/
def resolveString (L : Source) (path s : String) : String × List String :=
  let ps := (pieces (referenceAt L.fn) 0 s.toList).map (replacePiece L path)
  (String.ofList (ps.flatMap Prod.fst), ps.flatMap Prod.snd)

def childPath (path key : String) : String := if path = "" then key else path ++ "." ++ key

def itemPath (path : String) (i : Nat) : String := path ++ "[" ++ toString i ++ "]"

mutual

/-- `resolveRecursive`, `resolveVarsRecursive`. -/
def resolveRecursive (L : Source) (path : String) : Json → Json × List String
  | .obj fields =>
    let r := resolveObject L path fields
    (.obj r.1, r.2)
  | .arr items =>
    let r := resolveArray L path 0 items
    (.arr r.1, r.2)
  | .str s =>
    let r := resolveString L path s
    (.str r.1, r.2)
  | v => (v, [])

def resolveObject (L : Source) (path : String) : List (String × Json) → List (String × Json) × List String
  | [] => ([], [])
  | (k, v) :: fields =>
    let r := resolveRecursive L (childPath path k) v
    let rest := resolveObject L path fields
    ((k, r.1) :: rest.1, r.2 ++ rest.2)

def resolveArray (L : Source) (path : String) (i : Nat) : List Json → List Json × List String
  | [] => ([], [])
  | v :: items =>
    let r := resolveRecursive L (itemPath path i) v
    let rest := resolveArray L path (i + 1) items
    (r.1 :: rest.1, r.2 ++ rest.2)

end

def env (secrets : GoMap String) : Source where
  fn := ['e', 'n', 'v']
  get := secrets.lookup
  unknown name path := "missing environment variable " ++ name.goQuote ++ " at " ++ path

def var (vars : GoMap String) : Source where
  fn := ['v', 'a', 'r']
  get := vars.lookup
  unknown name path := "unknown variable " ++ name.goQuote ++ " at " ++ path

/-- What is read of a `RawConfig`. -/
structure SourceConfig where
  root : AnyMap
  vars : GoMap String
  sections : SectionKind → Section

variable {L : Source}

def Refers (fn : List Char) (s name : String) : Prop :=
  ∃ ps text, Parsed fn s.toList ps ∧ .token text name.toList ∈ ps

/-- What stands for a piece in the result; a reference to an unknown name stays. -/
def Source.value (L : Source) : Piece Char (List Char) → List Char
  | .letter c => [c]
  | .token text name => ((L.get (String.ofList name)).map String.toList).getD text

/-- A string with its references replaced. -/
def substitute (L : Source) (s : String) : String :=
  String.ofList ((pieces (referenceAt L.fn) 0 s.toList).flatMap L.value)

/-- The error for a string at a place. -/
def UnknownAt (L : Source) (path s err : String) : Prop :=
  ∃ name, Refers L.fn s name ∧ L.get name = none ∧ err = L.unknown name path

private theorem findSubmatch_reference (h : IsReference fn name text) : findSubmatch fn text = some name := by
  have hmatch : matchReference fn text = some (name, []) :=
    matchReference_iff.2 ⟨text, h, (List.append_nil text).symm⟩
  obtain ⟨c, t, rfl⟩ := h.exists_cons
  rw [findSubmatch, hmatch]

private theorem replacePiece_eq {ps : List (Piece Char (List Char))} (hps : Parsed L.fn s ps)
    {p : Piece Char (List Char)}
    (hp : p ∈ ps) (path : String) : replacePiece L path p = (L.value p, ((p.found.map String.ofList).bind fun name =>
      if L.get name = none then some (L.unknown name path) else none).toList) := by
  cases p with
  | letter c => rfl
  | token text name =>
    have hsub := findSubmatch_reference (hps.isReference hp)
    simp only [replacePiece, replaceMatch, hsub, Source.value, Piece.found, Option.map_some, Option.bind_some]
    cases L.get (String.ofList name) with
    | none => rfl
    | some value => rfl

/-- `resolveString` replaces the references and reports those that are unknown. -/
private theorem resolveString_eq (L : Source) (path s : String) :
    (resolveString L path s).1 = substitute L s ∧
      ∀ err, err ∈ (resolveString L path s).2 ↔ UnknownAt L path s err := by
  have hps : Parsed L.fn s.toList (pieces (referenceAt L.fn) 0 s.toList) := parsed_iff.2 rfl
  constructor
  · have hvalues : ((pieces (referenceAt L.fn) 0 s.toList).map (replacePiece L path)).flatMap Prod.fst =
        (pieces (referenceAt L.fn) 0 s.toList).flatMap L.value := by
      rw [List.flatMap_map]
      exact List.flatMap_congr fun p hp => congrArg Prod.fst (replacePiece_eq hps hp path)
    exact congrArg String.ofList hvalues
  · intro err
    rw [resolveString]
    simp only [List.mem_flatMap, List.mem_map]
    constructor
    · rintro ⟨r, ⟨p, hp, rfl⟩, herr⟩
      rw [replacePiece_eq hps hp, Option.mem_toList, Option.bind_eq_some_iff] at herr
      obtain ⟨name, hname, herr⟩ := herr
      split_ifs at herr with hnone
      cases herr
      cases p with
      | letter c => cases hname
      | token text name' =>
        cases hname
        exact ⟨_, ⟨_, text, hps, by rwa [String.toList_ofList]⟩, hnone, rfl⟩
    · rintro ⟨name, ⟨ps, text, hparsed, hmem⟩, hnone, rfl⟩
      rw [parsed_iff.1 hparsed] at hmem
      refine ⟨_, ⟨_, hmem, rfl⟩, ?_⟩
      rw [replacePiece_eq hps hmem]
      simp [Piece.found, hnone]

def references (fn : List Char) (s : String) : List String :=
  ((pieces (referenceAt fn) 0 s.toList).filterMap Piece.found).map String.ofList

def Source.errors (L : Source) (path s : String) : List String :=
  ((references L.fn s).filter fun name => (L.get name).isNone).map fun name => L.unknown name path

private theorem resolveString_errors (L : Source) (path s : String) : (resolveString L path s).2 = L.errors path s := by
  have hps : Parsed L.fn s.toList (pieces (referenceAt L.fn) 0 s.toList) := parsed_iff.2 rfl
  have herrs : ((pieces (referenceAt L.fn) 0 s.toList).map (replacePiece L path)).flatMap Prod.snd =
      (pieces (referenceAt L.fn) 0 s.toList).flatMap fun p => ((p.found.map String.ofList).bind fun name =>
        if L.get name = none then some (L.unknown name path) else none).toList := by
    rw [List.flatMap_map]
    exact List.flatMap_congr fun p hp => congrArg Prod.snd (replacePiece_eq hps hp path)
  refine herrs.trans ?_
  rw [Source.errors, references]
  clear hps herrs
  induction pieces (referenceAt L.fn) 0 s.toList with
  | nil => rfl
  | cons p ps ih =>
    rw [List.flatMap_cons, ih, List.filterMap_cons]
    cases p with
    | letter c => rfl
    | token text name =>
      simp only [Piece.found, Option.map_some, Option.bind_some, List.map_cons, List.filter_cons]
      cases L.get (String.ofList name) with
      | none => rfl
      | some value => rfl

/-- A reference inside of a reference is replaced, and what comes out is not read again. -/
example : resolveString (var (GoMap.ofPairs [("key", "name")])) "server.host"
    "\x7b\x7b$var('\x7b\x7b $var('key') \x7d\x7d')\x7d\x7d" =
      ("\x7b\x7b$var('name')\x7d\x7d", []) := by
  decide +kernel

/-! ### Files -/

mutual

/-- The value with its strings changed. -/
def mapStrings (f : String → String) : Json → Json
  | .obj fields => .obj (mapFields f fields)
  | .arr items => .arr (mapItems f items)
  | .str s => .str (f s)
  | v => v

def mapFields (f : String → String) : List (String × Json) → List (String × Json)
  | [] => []
  | (k, v) :: fields => (k, mapStrings f v) :: mapFields f fields

def mapItems (f : String → String) : List Json → List Json
  | [] => []
  | v :: items => mapStrings f v :: mapItems f items

end

/-- The value at a path has the string at another one. -/
inductive StringAt : String → Json → String → String → Prop where
  | str (path s : String) : StringAt path (.str s) path s
  | field {path p s k : String} {v : Json} {fields : List (String × Json)} (hmem : (k, v) ∈ fields)
      (h : StringAt (childPath path k) v p s) : StringAt path (.obj fields) p s
  | item {path p s : String} {i : Nat} {v : Json} {items : List Json} (hi : items[i]? = some v)
      (h : StringAt (itemPath path i) v p s) : StringAt path (.arr items) p s

mutual

theorem resolveRecursive_fst (L : Source) : ∀ path v, (resolveRecursive L path v).1 = mapStrings (substitute L) v
  | path, .obj fields => by
    rw [resolveRecursive, mapStrings]
    exact congrArg Json.obj (resolveObject_fst L path fields)
  | path, .arr items => by
    rw [resolveRecursive, mapStrings]
    exact congrArg Json.arr (resolveArray_fst L path 0 items)
  | path, .str s => by
    rw [resolveRecursive, mapStrings]
    exact congrArg Json.str (resolveString_eq L path s).1
  | _, .null | _, .bool _ | _, .num _ => rfl

theorem resolveObject_fst (L : Source) :
    ∀ path fields, (resolveObject L path fields).1 = mapFields (substitute L) fields
  | _, [] => rfl
  | path, (k, v) :: fields => by
    rw [resolveObject, mapFields]
    dsimp only
    rw [resolveRecursive_fst L (childPath path k) v, resolveObject_fst L path fields]

theorem resolveArray_fst (L : Source) : ∀ path i items, (resolveArray L path i items).1 = mapItems (substitute L) items
  | _, _, [] => rfl
  | path, i, v :: items => by
    rw [resolveArray, mapItems]
    dsimp only
    rw [resolveRecursive_fst L (itemPath path i) v, resolveArray_fst L path (i + 1) items]

end

/-- The errors for a value. -/
def UnknownIn (L : Source) (path : String) (v : Json) (err : String) : Prop :=
  ∃ p s, StringAt path v p s ∧ UnknownAt L p s err

mutual

theorem resolveRecursive_snd (L : Source) (err : String) : ∀ path v,
    err ∈ (resolveRecursive L path v).2 ↔ UnknownIn L path v err
  | path, .obj fields => by
    rw [resolveRecursive]
    dsimp only
    rw [resolveObject_snd L err path fields]
    constructor
    · rintro ⟨k, v, hmem, p, s, hat, herr⟩
      exact ⟨p, s, .field hmem hat, herr⟩
    · rintro ⟨p, s, hat, herr⟩
      cases hat with
      | field hmem hat => exact ⟨_, _, hmem, p, s, hat, herr⟩
  | path, .arr items => by
    rw [resolveRecursive]
    dsimp only
    rw [resolveArray_snd L err path 0 items]
    constructor
    · rintro ⟨i, v, hi, p, s, hat, herr⟩
      rw [Nat.zero_add] at hat
      exact ⟨p, s, .item hi hat, herr⟩
    · rintro ⟨p, s, hat, herr⟩
      cases hat with
      | @item path p s i v items hi hat => exact ⟨i, v, hi, p, s, by rwa [Nat.zero_add], herr⟩
  | path, .str s => by
    rw [resolveRecursive]
    dsimp only
    rw [(resolveString_eq L path s).2 err]
    constructor
    · exact fun h => ⟨path, s, .str path s, h⟩
    · rintro ⟨p, s', hat, herr⟩
      cases hat
      exact herr
  | path, .null | path, .bool _ | path, .num _ => by
    refine iff_of_false List.not_mem_nil ?_
    rintro ⟨p, s, hat, -⟩
    cases hat

theorem resolveObject_snd (L : Source) (err : String) : ∀ path fields,
    err ∈ (resolveObject L path fields).2 ↔ ∃ k v, (k, v) ∈ fields ∧ UnknownIn L (childPath path k) v err
  | _, [] => by simp [resolveObject]
  | path, (k, v) :: fields => by
    rw [resolveObject]
    dsimp only
    rw [List.mem_append, resolveRecursive_snd L err (childPath path k) v, resolveObject_snd L err path fields]
    constructor
    · rintro (h | ⟨k', v', hmem, h⟩)
      · exact ⟨k, v, List.mem_cons_self, h⟩
      · exact ⟨k', v', List.mem_cons_of_mem _ hmem, h⟩
    · rintro ⟨k', v', hmem, h⟩
      rcases List.mem_cons.1 hmem with heq | hmem
      · cases heq
        exact .inl h
      · exact .inr ⟨k', v', hmem, h⟩

theorem resolveArray_snd (L : Source) (err : String) : ∀ path i items,
    err ∈ (resolveArray L path i items).2 ↔
      ∃ (j : Nat) (v : Json), items[j]? = some v ∧ UnknownIn L (itemPath path (i + j)) v err
  | _, _, [] => by simp [resolveArray]
  | path, i, v :: items => by
    rw [resolveArray]
    dsimp only
    rw [List.mem_append, resolveRecursive_snd L err (itemPath path i) v, resolveArray_snd L err path (i + 1) items]
    constructor
    · rintro (h | ⟨j, v', hj, h⟩)
      · exact ⟨0, v, rfl, h⟩
      · exact ⟨j + 1, v', hj, by rwa [Nat.add_right_comm] at h⟩
    · rintro ⟨j, v', hj, h⟩
      cases j with
      | zero =>
        cases hj
        exact .inl h
      | succ j => exact .inr ⟨j, v', hj, by rwa [Nat.add_right_comm]⟩

end

mutual

/-- The strings of a value with their places. -/
def stringsOf (path : String) : Json → List (String × String)
  | .obj fields => fieldStrings path fields
  | .arr items => itemStrings path 0 items
  | .str s => [(path, s)]
  | _ => []

def fieldStrings (path : String) : List (String × Json) → List (String × String)
  | [] => []
  | (k, v) :: fields => stringsOf (childPath path k) v ++ fieldStrings path fields

def itemStrings (path : String) (i : Nat) : List Json → List (String × String)
  | [] => []
  | v :: items => stringsOf (itemPath path i) v ++ itemStrings path (i + 1) items

end

mutual

theorem resolveRecursive_errors (L : Source) : ∀ path v,
    (resolveRecursive L path v).2 = (stringsOf path v).flatMap fun e => L.errors e.1 e.2
  | path, .obj fields => by
    rw [resolveRecursive, stringsOf]
    exact resolveObject_errors L path fields
  | path, .arr items => by
    rw [resolveRecursive, stringsOf]
    exact resolveArray_errors L path 0 items
  | path, .str s => by
    rw [resolveRecursive, stringsOf, List.flatMap_singleton]
    exact resolveString_errors L path s
  | _, .null | _, .bool _ | _, .num _ => rfl

theorem resolveObject_errors (L : Source) : ∀ path fields,
    (resolveObject L path fields).2 = (fieldStrings path fields).flatMap fun e => L.errors e.1 e.2
  | _, [] => rfl
  | path, (k, v) :: fields => by
    rw [resolveObject, fieldStrings, List.flatMap_append]
    dsimp only
    rw [resolveRecursive_errors L (childPath path k) v, resolveObject_errors L path fields]

theorem resolveArray_errors (L : Source) : ∀ path i items,
    (resolveArray L path i items).2 = (itemStrings path i items).flatMap fun e => L.errors e.1 e.2
  | _, _, [] => rfl
  | path, i, v :: items => by
    rw [resolveArray, itemStrings, List.flatMap_append]
    dsimp only
    rw [resolveRecursive_errors L (itemPath path i) v, resolveArray_errors L path (i + 1) items]

end

/-- A file with its references replaced. -/
def substituteAll (L : Source) (file : AnyMap) : AnyMap := file.mapVal fun _ => mapStrings (substitute L)

/-- One error for each reference of a file to an unknown name. -/
def Source.fileErrors (L : Source) (file : AnyMap) : List String :=
  file.toPairs.flatMap fun e => (stringsOf e.1 e.2).flatMap fun e => L.errors e.1 e.2

variable {rc rc' : SourceConfig} {secrets : GoMap String}

/-- The config with everything replaced. -/
def replaced (secrets : GoMap String) (rc : SourceConfig) : SourceConfig :=
  if rc.vars.keys = [] then { rc with root := substituteAll (env secrets) rc.root }
  else { rc with
    root := substituteAll (var rc.vars) (substituteAll (env secrets) rc.root)
    sections := fun kind => (rc.sections kind).mapVal fun _ => substituteAll (var rc.vars) }

end Noda.Config
