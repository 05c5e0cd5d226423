import Mathlib.Data.List.Infix
import Noda.Engine.Refs
import Noda.Lib.Outcome
import Noda.Lib.Regexp
import Noda.Lib.Strconv

/-!
# Checks of SQL text

`plugins/db/validate.go`: the checks that identifiers, order clauses, join types and fragments of SQL pass before they
become part of a query.  For each of them, what exactly passes.

The pattern of the order clause ignores the case.  Go folds the case by Unicode, so that the letters `k` and `s` of the
pattern also match the Kelvin sign and the long s.
-/

namespace Noda.Db

open RegularExpression

/-- `unicode.ToUpper`, of which only the ASCII part matters here.  A letter that is raised stays so. -/
structure Unicode where
  toUpper : Char → Char
  toUpper_ascii : ∀ c : Char, c.toNat < 128 → toUpper c = c.toUpper
  toUpper_toUpper : ∀ c : Char, toUpper (toUpper c) = toUpper c

/-- `strings.ToUpper`. -/
def Unicode.upper (U : Unicode) (s : String) : String := String.ofList (s.toList.map U.toUpper)

/-- `strings.Split` at commas. -/
def splitComma (s : String) : List String := (s.toList.splitOn ',').map String.ofList

/-- `strings.TrimSpace`. -/
def trimSpace (s : String) : String := String.ofList (Engine.trimSpace s.toList)

/-! ### Identifiers -/

/-- `[a-zA-Z_]`. -/
def nameStart : List Char := "abcdefghijklmnopqrstuvwxyzABCDEFGHIJKLMNOPQRSTUVWXYZ_".toList

/-- `[a-zA-Z0-9_.]`. -/
def nameChars : List Char := nameStart ++ "0123456789.".toList

/-- `^[a-zA-Z_][a-zA-Z0-9_.]*(\.\*)?$|^\*$`. -/
def identifierRe : RegularExpression Char :=
  oneOf nameStart * ((oneOf nameChars).star * optional (char '.' * char '*')) + char '*'

def validateIdentifier (s : String) : Except String Unit :=
  if s = "" then .error "identifier must not be empty"
  else if identifierRe.rmatch s.toList then .ok ()
  else .error ("invalid identifier: " ++ s.goQuote)

/-- A name, with `.*` after it or not, or `*`. -/
def Identifier (s : String) : Prop :=
  s = "*" ∨ ∃ c cs, c ∈ nameStart ∧ (∀ c' ∈ cs, c' ∈ nameChars) ∧
    (s.toList = c :: cs ∨ s.toList = c :: cs ++ ['.', '*'])

theorem validateIdentifier_iff {s : String} : validateIdentifier s = .ok () ↔ Identifier s := by
  have hre : identifierRe.rmatch s.toList = true ↔ Identifier s := by
    simp only [identifierRe, add_rmatch_iff, mul_rmatch_iff, oneOf_rmatch_iff, star_oneOf_rmatch_iff,
      optional_rmatch_iff, char_rmatch_iff, Identifier]
    constructor
    · rintro (⟨-, -, heq, ⟨c, hc, rfl⟩, cs, rest, rfl, hcs, hrest⟩ | hstar)
      · refine .inr ⟨c, cs, hc, hcs, ?_⟩
        rcases hrest with ⟨-, -, rfl, rfl, rfl⟩ | rfl
        · exact .inr heq
        · rw [List.append_nil] at heq
          exact .inl heq
      · exact .inl (String.toList_injective hstar)
    · rintro (rfl | ⟨c, cs, hc, hcs, heq | heq⟩)
      · exact .inr rfl
      · exact .inl ⟨[c], cs, heq, ⟨c, hc, rfl⟩, cs, [], by simp, hcs, .inr rfl⟩
      · exact .inl ⟨[c], cs ++ ['.', '*'], heq, ⟨c, hc, rfl⟩, cs, ['.', '*'], rfl, hcs,
          .inl ⟨['.'], ['*'], rfl, rfl, rfl⟩⟩
  rw [← hre, validateIdentifier]
  by_cases hempty : s = ""
  · subst hempty
    exact ⟨nofun, fun h => absurd h (by decide)⟩
  · rw [if_neg hempty]
    split_ifs with h
    · exact ⟨fun _ => h, fun _ => rfl⟩
    · exact ⟨nofun, fun h' => absurd h' h⟩

/-! ### Order clauses -/

/-- The letters of the classes that are folded with an ASCII letter: the long s and the Kelvin sign. -/
def folded : List Char := ['ſ', 'K']

/-- `\s`. -/
def spaces : List Char := ['\t', '\n', '\x0c', '\r', ' ']

/-- `ASC` and `DESC`, in any case. -/
def directions : List (List (List Char)) :=
  [["Aa".toList, "Ssſ".toList, "Cc".toList], ["Dd".toList, "Ee".toList, "Ssſ".toList, "Cc".toList]]

/-- `(?i)^[a-zA-Z_][a-zA-Z0-9_.]*(\s+(ASC|DESC))?$`. -/
def orderItemRe : RegularExpression Char :=
  oneOf (folded ++ nameStart) * ((oneOf (folded ++ nameChars)).star *
    optional (many (oneOf spaces) * anyOf (directions.map word)))

def validateOrderItem (part : String) : Except String Unit :=
  if trimSpace part = "" then .error "order clause contains empty item"
  else if orderItemRe.rmatch (trimSpace part).toList then .ok ()
  else .error ("invalid order item: " ++ (trimSpace part).goQuote)

def validateOrderClause (s : String) : Except String Unit :=
  if s = "" then .error "order clause must not be empty" else (splitComma s).forM validateOrderItem

/-- A column, and after spaces a direction or not. -/
def OrderItem (s : String) : Prop :=
  ∃ c cs rest, c ∈ folded ++ nameStart ∧ (∀ c' ∈ cs, c' ∈ folded ++ nameChars) ∧ s.toList = c :: cs ++ rest ∧
    (rest = [] ∨ ∃ gap direction, rest = gap ++ direction ∧ gap ≠ [] ∧ (∀ c' ∈ gap, c' ∈ spaces) ∧
      ∃ word ∈ directions, List.Forall₂ (fun c cs => c ∈ cs) direction word)

private theorem orderItemRe_iff {s : String} : orderItemRe.rmatch s.toList = true ↔ OrderItem s := by
  simp only [orderItemRe, mul_rmatch_iff, oneOf_rmatch_iff, star_oneOf_rmatch_iff, optional_rmatch_iff,
    many_oneOf_rmatch_iff, anyOf_rmatch_iff, List.mem_map, exists_exists_and_eq_and, word_rmatch_iff, OrderItem]
  constructor
  · rintro ⟨-, -, heq, ⟨c, hc, rfl⟩, cs, rest, rfl, hcs, hrest⟩
    refine ⟨c, cs, rest, hc, hcs, heq, ?_⟩
    rcases hrest with ⟨gap, direction, rfl, ⟨hne, hgap⟩, hword⟩ | rfl
    · exact .inr ⟨gap, direction, rfl, hne, hgap, hword⟩
    · exact .inl rfl
  · rintro ⟨c, cs, rest, hc, hcs, heq, hrest⟩
    refine ⟨[c], cs ++ rest, heq, ⟨c, hc, rfl⟩, cs, rest, rfl, hcs, ?_⟩
    rcases hrest with rfl | ⟨gap, direction, rfl, hne, hgap, hword⟩
    · exact .inr rfl
    · exact .inl ⟨gap, direction, rfl, ⟨hne, hgap⟩, hword⟩

/-- Items that are separated by commas. -/
def OrderClause (s : String) : Prop := ∀ part ∈ splitComma s, OrderItem (trimSpace part)

private theorem validateOrderItem_iff {part : String} :
    validateOrderItem part = .ok () ↔ OrderItem (trimSpace part) := by
  rw [← orderItemRe_iff, validateOrderItem]
  by_cases hempty : trimSpace part = ""
  · rw [if_pos hempty, hempty]
    exact ⟨nofun, fun h => absurd h (by decide)⟩
  · rw [if_neg hempty]
    split_ifs with h
    · exact ⟨fun _ => h, fun _ => rfl⟩
    · exact ⟨nofun, fun h' => absurd h' h⟩

theorem validateOrderClause_iff {s : String} : validateOrderClause s = .ok () ↔ OrderClause s := by
  have hforM : (splitComma s).forM validateOrderItem = .ok () ↔ OrderClause s := by
    rw [Outcome.forM_eq_ok]
    exact forall₂_congr fun part _ => validateOrderItem_iff
  rw [← hforM, validateOrderClause]
  by_cases hempty : s = ""
  · subst hempty
    exact ⟨nofun, fun h => absurd h (by decide)⟩
  · rw [if_neg hempty]

/-! ### Join types -/

def joinTypes : List String := ["INNER", "LEFT", "RIGHT", "FULL", "CROSS"]

def validateJoinType (U : Unicode) (s : String) : Except String Unit :=
  if U.upper s ∈ joinTypes then .ok () else .error ("invalid join type: " ++ s.goQuote)

theorem Unicode.upper_upper (U : Unicode) (s : String) : U.upper (U.upper s) = U.upper s := by
  rw [upper, upper, String.toList_ofList, List.map_map]
  exact congrArg String.ofList (List.map_congr_left fun c _ => U.toUpper_toUpper c)

theorem Unicode.upper_capitals (U : Unicode) {s : String} (h : ∀ c ∈ s.toList, c.toNat < 128 ∧ c.toUpper = c) :
    U.upper s = s := by
  have hmap : s.toList.map U.toUpper = s.toList.map id :=
    List.map_congr_left fun c hc => (U.toUpper_ascii c (h c hc).1).trans (h c hc).2
  rw [upper, hmap, List.map_id, String.ofList_toList]

/-! ### Fragments -/

def blockedSQLKeywords : List String :=
  ["DROP", "DELETE", "INSERT", "UPDATE", "ALTER", "CREATE", "EXEC", "UNION", "SELECT", "GRANT", "REVOKE", "TRUNCATE"]

/-- `\w`. -/
def isWord (c : Char) : Bool := c.isAlphanum || c = '_'

/-- The split of a text at the matches of `\W+`: characters that follow each other belong to one match. -/
def splitNonWord : List Char → List (List Char)
  | [] => [[]]
  | c :: cs =>
    if isWord c then (splitNonWord cs).modifyHead (c :: ·)
    else if cs.head?.any fun c' => !isWord c' then splitNonWord cs
    else [] :: splitNonWord cs

def containsWord (s kw : String) : Bool := kw.toList ∈ splitNonWord s.toList

def validateSQLFragment (U : Unicode) (s : String) : Except String Unit :=
  if ';' ∈ s.toList then .error "SQL fragment must not contain semicolons"
  else if ['-', '-'] <:+: s.toList then .error "SQL fragment must not contain line comments"
  else if ['/', '*'] <:+: s.toList then .error "SQL fragment must not contain block comments"
  else
    blockedSQLKeywords.forM fun kw =>
      if containsWord (U.upper s) kw then .error ("SQL fragment contains blocked keyword " ++ kw.goQuote) else .ok ()

/-- The text begins with a word that goes no further. -/
private theorem splitNonWord_eq (s : List Char) : ∃ ws, splitNonWord s = s.takeWhile isWord :: ws := by
  induction s with
  | nil => exact ⟨[], rfl⟩
  | cons c cs ih =>
    obtain ⟨ws, hws⟩ := ih
    rw [splitNonWord, List.takeWhile_cons, hws]
    cases isWord c with
    | true => exact ⟨ws, rfl⟩
    | false =>
      cases cs with
      | nil => exact ⟨_, rfl⟩
      | cons c' cs =>
        rw [List.takeWhile_cons, List.head?_cons, Option.any_some]
        cases isWord c' with
        | true => exact ⟨_, rfl⟩
        | false => exact ⟨ws, rfl⟩

/-- No word begins here. -/
def Ends (b : List Char) : Prop := ∀ c ∈ b.head?, isWord c = false

/-- A word stands in the text on its own. -/
def Stands (w s : List Char) : Prop := ∃ a b, s = a ++ w ++ b ∧ (∀ c ∈ a.getLast?, isWord c = false) ∧ Ends b

private theorem eq_takeWhile_iff {w s : List Char} (hw : ∀ c ∈ w, isWord c = true) :
    w = s.takeWhile isWord ↔ ∃ b, s = w ++ b ∧ Ends b := by
  constructor
  · rintro rfl
    refine ⟨s.dropWhile isWord, List.takeWhile_append_dropWhile.symm, fun c hc => ?_⟩
    have hnot := List.head?_dropWhile_not isWord s
    rw [Option.mem_def.1 hc] at hnot
    simpa using hnot
  · rintro ⟨b, rfl, hb⟩
    rw [List.takeWhile_append_of_pos hw]
    cases b with
    | nil => simp
    | cons c b =>
      have hc := hb c rfl
      simp [hc]

/-- The words that come after a separator. -/
private theorem mem_tail_splitNonWord {w : List Char} (hne : w ≠ []) (hw : ∀ c ∈ w, isWord c = true) (s : List Char) :
    w ∈ (splitNonWord s).tail ↔ ∃ a c b, s = a ++ c :: (w ++ b) ∧ isWord c = false ∧ Ends b := by
  induction s with
  | nil => simp [splitNonWord]
  | cons c cs ih =>
    have hcons : (∃ a c' b, c :: cs = a ++ c' :: (w ++ b) ∧ isWord c' = false ∧ Ends b) ↔
        ((isWord c = false ∧ ∃ b, cs = w ++ b ∧ Ends b) ∨ w ∈ (splitNonWord cs).tail) := by
      rw [ih]
      constructor
      · rintro ⟨a, c', b, heq, hc', hb⟩
        cases a with
        | nil =>
          cases heq
          exact .inl ⟨hc', b, rfl, hb⟩
        | cons d a =>
          cases heq
          exact .inr ⟨a, c', b, rfl, hc', hb⟩
      · rintro (⟨hc, b, rfl, hb⟩ | ⟨a, c', b, rfl, hc', hb⟩)
        · exact ⟨[], c, b, rfl, hc, hb⟩
        · exact ⟨c :: a, c', b, rfl, hc', hb⟩
    rw [hcons, ← eq_takeWhile_iff hw, splitNonWord]
    obtain ⟨ws, hws⟩ := splitNonWord_eq cs
    rw [hws]
    cases hc : isWord c with
    | true => simp
    | false =>
      cases cs with
      | nil =>
        simp [hne]
      | cons c' cs =>
        cases hc' : isWord c' with
        | true => simp [hc']
        | false => simp [hc', hne]

private theorem mem_splitNonWord {w : List Char} (hne : w ≠ []) (hw : ∀ c ∈ w, isWord c = true) (s : List Char) :
    w ∈ splitNonWord s ↔ Stands w s := by
  have htail := mem_tail_splitNonWord hne hw s
  obtain ⟨ws, hws⟩ := splitNonWord_eq s
  rw [hws, List.tail_cons] at htail
  rw [hws, List.mem_cons, htail, eq_takeWhile_iff hw]
  constructor
  · rintro (⟨b, rfl, hb⟩ | ⟨a, c, b, rfl, hc, hb⟩)
    · exact ⟨[], b, rfl, nofun, hb⟩
    · refine ⟨a ++ [c], b, by simp, fun c' hc' => ?_, hb⟩
      rw [List.getLast?_concat] at hc'
      cases hc'
      exact hc
  · rintro ⟨a, b, rfl, ha, hb⟩
    rcases List.eq_nil_or_concat a with rfl | ⟨a, c, rfl⟩
    · exact .inl ⟨b, rfl, hb⟩
    · exact .inr ⟨a, c, b, by simp, ha c (by simp), hb⟩

/-- Text without an end of a statement, without the start of a comment, and without a blocked keyword in any case. -/
structure Fragment (U : Unicode) (s : String) : Prop where
  semicolon : ';' ∉ s.toList
  lineComment : ¬['-', '-'] <:+: s.toList
  blockComment : ¬['/', '*'] <:+: s.toList
  keyword : ∀ kw ∈ blockedSQLKeywords, ¬Stands kw.toList (s.toList.map U.toUpper)

private theorem containsWord_iff {kw : String} (hkw : kw ∈ blockedSQLKeywords) (s : String) :
    containsWord s kw = true ↔ Stands kw.toList s.toList := by
  have hnonempty : (blockedSQLKeywords.all fun kw => !kw.toList.isEmpty) = true := by decide +kernel
  have hwords : (blockedSQLKeywords.all fun kw => kw.toList.all isWord) = true := by decide +kernel
  have hne : kw.toList ≠ [] := by simpa using List.all_eq_true.1 hnonempty kw hkw
  have hword : ∀ c ∈ kw.toList, isWord c = true := List.all_eq_true.1 (List.all_eq_true.1 hwords kw hkw)
  rw [containsWord, decide_eq_true_iff, mem_splitNonWord hne hword]

theorem validateSQLFragment_iff {U : Unicode} {s : String} : validateSQLFragment U s = .ok () ↔ Fragment U s := by
  rw [validateSQLFragment]
  split_ifs with h1 h2 h3
  · exact ⟨nofun, fun h => absurd h1 h.semicolon⟩
  · exact ⟨nofun, fun h => absurd h2 h.lineComment⟩
  · exact ⟨nofun, fun h => absurd h3 h.blockComment⟩
  · rw [Outcome.forM_eq_ok]
    constructor
    · intro h
      refine ⟨h1, h2, h3, fun kw hkw hstands => ?_⟩
      have hok := h kw hkw
      rw [if_pos ((containsWord_iff hkw _).2 (by rwa [Unicode.upper, String.toList_ofList]))] at hok
      cases hok
    · intro h kw hkw
      refine if_neg fun hcontains => h.keyword kw hkw ?_
      rwa [containsWord_iff hkw, Unicode.upper, String.toList_ofList] at hcontains

end Noda.Db
