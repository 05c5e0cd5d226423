import Mathlib.Data.List.TakeWhile
import Noda.Expr.Resolver

/-!
# Which references a config is known to have

`extractConfigRefs` reads the templates of a config with a scanner of its own: a word is a run of identifier characters
and dots, and a word `X`, `X.y`, `nodes.X` or `nodes.X.y` refers to `X`.  The expression language reads the same text
differently (`-` is an operator there), and the resolvers also enter arrays inside arrays.  Here is exactly what the
scanner finds (`mem_extractConfigRefs`), and so when every output that a template reads is among the references.
-/

namespace Noda.Engine

open Noda.Expr

/-! ## Words -/

def isWordChar (c : Char) : Bool := isIdentChar c || c == '.'

/-- No word goes on behind `pre`: the last character of `pre` that is not a dot is no identifier character. -/
def WordStart (pre : List Char) : Prop :=
  ∀ before c dots, pre = before ++ c :: dots → (∀ d ∈ dots, d = '.') → isIdentChar c = false

/-- `word` stands in the text as a maximal run of word characters, less the dots in front of it. -/
def IsWord (text word : List Char) : Prop :=
  ∃ pre post, text = pre ++ word ++ post ∧ WordStart pre ∧ (∃ c ∈ word.head?, isIdentChar c = true) ∧
    (∀ c ∈ word, isWordChar c = true) ∧ ∀ c ∈ post.head?, isWordChar c = false

theorem WordStart.nil : WordStart [] := by
  intro before c dots h
  simp at h

theorem WordStart.of_append {xs ys : List Char} (h : WordStart (xs ++ ys)) : WordStart ys := by
  intro before c dots heq hdots
  exact h (xs ++ before) c dots (by rw [heq, List.append_assoc]) hdots

private theorem wordStart_cons {c : Char} (hc : isIdentChar c = false) {pre : List Char} :
    WordStart (c :: pre) ↔ WordStart pre := by
  constructor
  · intro h
    have h' : WordStart ([c] ++ pre) := h
    exact h'.of_append
  · intro h before x dots heq hdots
    cases before with
    | nil =>
      obtain ⟨rfl, -⟩ := List.cons.inj heq
      exact hc
    | cons b before =>
      obtain ⟨rfl, htail⟩ := List.cons.inj heq
      exact h before x dots htail hdots

/-- Behind a character that is not part of any word, what was before does not matter. -/
private theorem wordStart_append {xs ys : List Char} {c : Char} (hc : isWordChar c = false) (h : WordStart (c :: ys)) :
    WordStart (xs ++ c :: ys) := by
  intro before x dots heq hdots
  rcases List.append_eq_append_iff.mp heq with ⟨mid, rfl, hmid⟩ | ⟨mid, rfl, hmid⟩
  · exact h mid x dots hmid hdots
  · -- the character would have to be one of the dots
    cases mid with
    | nil => exact h [] x dots hmid.symm hdots
    | cons m mid =>
      obtain ⟨rfl, hdots'⟩ := List.cons.inj hmid
      have hdot := hdots c (by rw [hdots']; simp)
      rw [hdot] at hc
      cases hc

private theorem not_wordStart_of_word {pre : List Char} (hhead : ∃ c ∈ pre.head?, isIdentChar c = true)
    (hall : ∀ c ∈ pre, isWordChar c = true) : ¬ WordStart pre := by
  induction pre using List.reverseRecOn with
  | nil =>
    obtain ⟨c, hc, -⟩ := hhead
    cases hc
  | append_singleton pre x ih =>
    intro h
    cases hx : isIdentChar x with
    | true =>
      rw [h pre x [] rfl (by simp)] at hx
      cases hx
    | false =>
      have hdot : x = '.' := by
        have := hall x (by simp)
        simpa [isWordChar, hx] using this
      have hpre : WordStart pre := by
        intro before c dots heq hdots
        refine h before c (dots ++ [x]) (by rw [heq]; simp) fun d hd => ?_
        rcases List.mem_append.mp hd with hd | hd
        · exact hdots d hd
        · rw [List.mem_singleton.mp hd, hdot]
      have hhead' : ∃ c ∈ pre.head?, isIdentChar c = true := by
        obtain ⟨c, hc, hident⟩ := hhead
        cases pre with
        | nil =>
          obtain rfl : x = c := by simpa using hc
          rw [hx] at hident
          cases hident
        | cons p pre => exact ⟨c, hc, hident⟩
      exact ih hhead' (fun c hc => hall c (by simp [hc])) hpre

/-! ## What the scanner finds -/

private theorem isWord_cons_of_not_ident {c : Char} (hc : isIdentChar c = false) {text word : List Char} :
    IsWord (c :: text) word ↔ IsWord text word := by
  constructor
  · rintro ⟨pre, post, heq, hstart, hhead, hall, hpost⟩
    cases pre with
    | nil =>
      obtain ⟨x, hx, hident⟩ := hhead
      cases word with
      | nil => cases hx
      | cons w word =>
        obtain rfl : w = x := by simpa using hx
        obtain ⟨rfl, -⟩ := List.cons.inj heq
        rw [hc] at hident
        cases hident
    | cons p pre =>
      obtain ⟨rfl, htail⟩ := List.cons.inj heq
      exact ⟨pre, post, htail, (wordStart_cons hc).mp hstart, hhead, hall, hpost⟩
  · rintro ⟨pre, post, rfl, hstart, hrest⟩
    exact ⟨c :: pre, post, rfl, (wordStart_cons hc).mpr hstart, hrest⟩

theorem head_dropWhile_not {p : Char → Bool} {text : List Char} :
    ∀ c ∈ (text.dropWhile p).head?, p c = false := by
  intro c hc
  have := List.head?_dropWhile_not p text
  rw [Option.mem_def.mp hc] at this
  simpa using this

private theorem isWord_run {c : Char} (hc : isIdentChar c = true) (text : List Char) :
    IsWord (c :: text) (c :: text.takeWhile isWordChar) := by
  refine ⟨[], text.dropWhile isWordChar, by simp, .nil, ⟨c, by simp, hc⟩, fun d hd => ?_, head_dropWhile_not⟩
  rcases List.mem_cons.mp hd with rfl | hd
  · simp [isWordChar, hc]
  · exact List.mem_takeWhile_imp hd

private theorem isWord_of_dropWhile {c : Char} {text word : List Char} (h : IsWord (text.dropWhile isWordChar) word) :
    IsWord (c :: text) word := by
  have hstop : ∀ d ∈ (text.dropWhile isWordChar).head?, isWordChar d = false := head_dropWhile_not
  have hsplit : text.takeWhile isWordChar ++ text.dropWhile isWordChar = text := List.takeWhile_append_dropWhile
  obtain ⟨pre, post, heq, hstart, hhead, hall, hpost⟩ := h
  cases pre with
  | nil =>
    obtain ⟨x, hx, hident⟩ := hhead
    have hxw : isWordChar x = false := by
      refine hstop x ?_
      rw [heq]
      cases word with
      | nil => cases hx
      | cons w word => exact hx
    simp [isWordChar, hident] at hxw
  | cons d pre =>
    have hdw : isWordChar d = false := hstop d (by rw [heq]; simp)
    refine ⟨c :: text.takeWhile isWordChar ++ d :: pre, post, ?_, wordStart_append hdw hstart, hhead, hall, hpost⟩
    conv_lhs => rw [← hsplit, heq]
    simp

private theorem isWord_cons_of_ident {c : Char} (hc : isIdentChar c = true) {text word : List Char} :
    IsWord (c :: text) word ↔ word = c :: text.takeWhile isWordChar ∨ IsWord (text.dropWhile isWordChar) word := by
  have hcw : isWordChar c = true := by simp [isWordChar, hc]
  have hrun : ∀ d ∈ text.takeWhile isWordChar, isWordChar d = true := fun d hd => List.mem_takeWhile_imp hd
  have hsplit : text.takeWhile isWordChar ++ text.dropWhile isWordChar = text := List.takeWhile_append_dropWhile
  constructor
  · rintro ⟨pre, post, heq, hstart, hhead, hall, hpost⟩
    cases pre with
    | nil =>
      left
      cases word with
      | nil =>
        obtain ⟨x, hx, -⟩ := hhead
        cases hx
      | cons w word =>
        obtain ⟨rfl, htail⟩ := List.cons.inj heq
        have hnil : post.takeWhile isWordChar = [] := by
          cases post with
          | nil => rfl
          | cons d post => simp [hpost d (by simp)]
        have hword : ∀ d ∈ word, isWordChar d = true := fun d hd => hall d (by simp [hd])
        rw [htail, List.append_eq, List.takeWhile_append_of_pos hword, hnil, List.append_nil]
    | cons p pre =>
      right
      obtain ⟨rfl, htail⟩ := List.cons.inj heq
      rw [List.append_eq, List.append_eq, List.append_assoc, ← hsplit] at htail
      -- behind `pre` a word starts, so `pre` is not part of the word of `c`
      have hnot : ∀ mid, text.takeWhile isWordChar = pre ++ mid → False := by
        intro mid hmid
        refine not_wordStart_of_word ⟨c, by simp, hc⟩ (fun d hd => ?_) hstart
        rcases List.mem_cons.mp hd with rfl | hd
        · exact hcw
        · exact hrun d (by rw [hmid]; simp [hd])
      rcases List.append_eq_append_iff.mp htail with ⟨mid, hmid, hrest⟩ | ⟨mid, hmid, -⟩
      · cases mid with
        | nil => exact absurd (by simpa using hmid.symm) (hnot [])
        | cons d mid =>
          rw [hmid] at hstart
          have happ : WordStart ((c :: text.takeWhile isWordChar) ++ d :: mid) := hstart
          have hd : WordStart (d :: mid) := happ.of_append
          exact ⟨d :: mid, post, by rw [hrest, List.append_assoc], hd, hhead, hall, hpost⟩
      · exact absurd hmid (hnot mid)
  · intro h
    rcases h with rfl | h
    · exact isWord_run hc text
    · exact isWord_of_dropWhile h

private theorem mem_identRuns {fuel : Nat} {text word : List Char} (hfuel : text.length ≤ fuel) :
    word ∈ identRuns fuel text ↔ IsWord text word := by
  have hnil : ¬ IsWord [] word := by
    rintro ⟨pre, post, heq, -, ⟨c, hc, -⟩, -⟩
    have hword : pre = [] ∧ word = [] ∧ post = [] := by simpa using heq.symm
    rw [hword.2.1] at hc
    cases hc
  induction fuel generalizing text with
  | zero =>
    obtain rfl := List.length_eq_zero_iff.mp (Nat.le_zero.mp hfuel)
    simp [identRuns, hnil]
  | succ fuel ih =>
    cases text with
    | nil => simp [identRuns, hnil]
    | cons c text =>
      have hlen : text.length ≤ fuel := by simpa using hfuel
      cases hc : isIdentChar c with
      | false =>
        have hruns : identRuns (fuel + 1) (c :: text) = identRuns fuel text := by rw [identRuns, if_neg (by simp [hc])]
        rw [hruns, isWord_cons_of_not_ident hc]
        exact ih hlen
      | true =>
        have hdrop : (text.dropWhile isWordChar).length ≤ fuel :=
          (List.dropWhile_suffix isWordChar).length_le.trans hlen
        have hruns : identRuns (fuel + 1) (c :: text) =
            (c :: text.takeWhile isWordChar) :: identRuns fuel (text.dropWhile isWordChar) := by
          rw [identRuns, if_pos hc]
          rfl
        rw [hruns, isWord_cons_of_ident hc, List.mem_cons]
        exact or_congr_right (ih hdrop)

/-! ## Mentions -/

def nodesDot : List Char := "nodes.".toList

/-- The text mentions `key` plainly: where a word starts, there is `key` or `nodes.key`, and no identifier character
follows it.  (`nodes.key` is no mention of `nodes`.) -/
def Mention (text key : List Char) : Prop :=
  ∃ pre root post, text = pre ++ root ++ key ++ post ∧ WordStart pre ∧ (∀ c ∈ key, isIdentChar c = true) ∧
    (∀ c ∈ post.head?, isIdentChar c = false) ∧
    (root = nodesDot ∨ root = [] ∧ key ≠ [] ∧ ¬ (key = "nodes".toList ∧ post.head? = some '.'))

def firstPart (word : List Char) : List Char := word.takeWhile (· ≠ '.')

/-- The key to which a word refers. -/
def wordKey (word : List Char) : List Char :=
  if nodesDot <+: word then firstPart (word.drop 6) else firstPart word

private theorem extractIdentifiers_eq (expression : String) :
    extractIdentifiers expression =
      (identRuns expression.toList.length expression.toList).map fun word => String.ofList (wordKey word) := by
  unfold extractIdentifiers
  refine List.map_congr_left fun word _ => ?_
  show (if nodesDot <+: word then _ else _) = String.ofList (if nodesDot <+: word then _ else _)
  split <;> rfl

private theorem not_dot_of_ident {c : Char} (hc : isIdentChar c = true) : c ≠ '.' := by
  rintro rfl
  cases hc

private theorem firstPart_append {key rest : List Char} (hkey : ∀ c ∈ key, isIdentChar c = true)
    (hrest : ∀ c ∈ rest.head?, c = '.') : firstPart (key ++ rest) = key := by
  have hne : ∀ c ∈ key, decide (c ≠ '.') = true := fun c hc => by simpa using not_dot_of_ident (hkey c hc)
  have hnil : rest.takeWhile (· ≠ '.') = [] := by
    cases rest with
    | nil => rfl
    | cons c rest => simp [hrest c (by simp)]
  rw [firstPart, List.takeWhile_append_of_pos hne, hnil, List.append_nil]

private theorem firstPart_split {word : List Char} (hall : ∀ c ∈ word, isWordChar c = true) :
    ∃ rest, word = firstPart word ++ rest ∧ (∀ c ∈ firstPart word, isIdentChar c = true) ∧ ∀ c ∈ rest.head?,
      c = '.' := by
  refine ⟨word.dropWhile (· ≠ '.'), List.takeWhile_append_dropWhile.symm, fun c hc => ?_, fun c hc => ?_⟩
  · have hdot : c ≠ '.' := by simpa using List.mem_takeWhile_imp hc
    have hword := hall c ((List.takeWhile_prefix _).subset hc)
    simpa [isWordChar, hdot] using hword
  · simpa using head_dropWhile_not c hc

/-- What follows the first part of a word in the text is no identifier character. -/
private theorem head_not_ident {rest post : List Char} (hrest : ∀ c ∈ rest.head?, c = '.')
    (hpost : ∀ c ∈ post.head?, isWordChar c = false) : ∀ c ∈ (rest ++ post).head?, isIdentChar c = false := by
  intro c hc
  cases rest with
  | nil =>
    have := hpost c hc
    simp only [isWordChar, Bool.or_eq_false_iff] at this
    exact this.1
  | cons d rest =>
    obtain rfl : d = c := by simpa using hc
    rw [hrest d (by simp)]
    rfl

theorem IsWord.mention {text word : List Char} (h : IsWord text word) : Mention text (wordKey word) := by
  obtain ⟨pre, post, rfl, hstart, ⟨x, hx, hident⟩, hall, hpost⟩ := h
  by_cases hroot : nodesDot <+: word
  · obtain ⟨tail, rfl⟩ := hroot
    have hkey : wordKey (nodesDot ++ tail) = firstPart tail := by
      rw [wordKey, if_pos (List.prefix_append _ _)]
      rfl
    have htail : ∀ c ∈ tail, isWordChar c = true := fun c hc => hall c (by simp [hc])
    obtain ⟨rest, hrest, hidents, hdot⟩ := firstPart_split htail
    rw [hkey]
    refine ⟨pre, nodesDot, rest ++ post, ?_, hstart, hidents, head_not_ident hdot hpost, .inl rfl⟩
    conv_lhs => rw [hrest]
    simp
  · have hkey : wordKey word = firstPart word := if_neg hroot
    obtain ⟨rest, hrest, hidents, hdot⟩ := firstPart_split hall
    rw [hkey]
    refine ⟨pre, [], rest ++ post, ?_, hstart, hidents, head_not_ident hdot hpost, .inr ⟨rfl, ?_, ?_⟩⟩
    · conv_lhs => rw [hrest]
      simp
    · intro hnil
      rw [hnil, List.nil_append] at hrest
      rw [hdot x (by rw [← hrest]; exact hx)] at hident
      cases hident
    · rintro ⟨hnodes, hhead⟩
      cases rest with
      | nil =>
        have := hpost '.' hhead
        cases this
      | cons d rest =>
        obtain rfl := hdot d (by simp)
        exact hroot ⟨rest, by rw [hrest, hnodes]; rfl⟩

theorem Mention.exists_word {text key : List Char} (h : Mention text key) :
    ∃ word, IsWord text word ∧ wordKey word = key := by
  obtain ⟨pre, root, post, rfl, hstart, hkey, hpost, hroot⟩ := h
  -- the word ends where the word characters behind the key end
  have hsplit : post.takeWhile isWordChar ++ post.dropWhile isWordChar = post := List.takeWhile_append_dropWhile
  have hmore : ∀ c ∈ post.takeWhile isWordChar, isWordChar c = true := fun c hc => List.mem_takeWhile_imp hc
  have hdot : ∀ c ∈ (post.takeWhile isWordChar).head?, c = '.' := by
    intro c hc
    have hword := hmore c (List.mem_of_mem_head? hc)
    have hident : isIdentChar c = false := by
      refine hpost c ?_
      rw [← hsplit, List.head?_append, Option.mem_def.mp hc]
      rfl
    simpa [isWordChar, hident] using hword
  have hidents : ∀ c ∈ key, isWordChar c = true := fun c hc => by simp [isWordChar, hkey c hc]
  have hstop : ∀ c ∈ (post.dropWhile isWordChar).head?, isWordChar c = false := head_dropWhile_not
  refine ⟨root ++ key ++ post.takeWhile isWordChar, ⟨pre, post.dropWhile isWordChar, ?_, hstart, ?_, ?_, hstop⟩, ?_⟩
  · conv_lhs => rw [← hsplit]
    simp
  · rcases hroot with rfl | ⟨rfl, hne, -⟩
    · exact ⟨'n', rfl, rfl⟩
    · cases key with
      | nil => exact absurd rfl hne
      | cons c key => exact ⟨c, by simp, hkey c (by simp)⟩
  · intro c hc
    rcases List.mem_append.mp hc with hc | hc
    · rcases List.mem_append.mp hc with hc | hc
      · rcases hroot with rfl | ⟨rfl, -, -⟩
        · exact List.all_eq_true.mp (by decide : nodesDot.all isWordChar = true) c hc
        · cases hc
      · exact hidents c hc
    · exact hmore c hc
  · rcases hroot with rfl | ⟨rfl, hne, hnodes⟩
    · rw [List.append_assoc, wordKey, if_pos (List.prefix_append _ _)]
      exact firstPart_append hkey hdot
    · rw [List.nil_append, wordKey, if_neg, firstPart_append hkey hdot]
      rintro ⟨tail, htail⟩
      have hfirst : firstPart ("nodes".toList ++ '.' :: tail) = "nodes".toList :=
        firstPart_append (List.all_eq_true.mp (by decide)) (by simp)
      have hkeyeq : key = "nodes".toList := by
        rw [← firstPart_append hkey hdot, ← htail]
        exact hfirst
      refine hnodes ⟨hkeyeq, ?_⟩
      rw [hkeyeq] at htail
      have happ : "nodes".toList ++ '.' :: tail = "nodes".toList ++ post.takeWhile isWordChar := htail
      have htake := List.append_cancel_left happ
      rw [← hsplit, ← htake]
      rfl

private theorem mem_extractIdentifiers {expression key : String} :
    key ∈ extractIdentifiers expression ↔ Mention expression.toList key.toList := by
  rw [extractIdentifiers_eq, List.mem_map]
  constructor
  · rintro ⟨word, hword, rfl⟩
    rw [String.toList_ofList]
    exact ((mem_identRuns (Nat.le_refl _)).mp hword).mention
  · intro h
    obtain ⟨word, hword, hkey⟩ := h.exists_word
    exact ⟨word, (mem_identRuns (Nat.le_refl _)).mpr hword, by rw [hkey, String.ofList_toList]⟩

/-! ## The references of a config -/

/-- The texts of the expressions of a template; a malformed one has none. -/
def expressionsOf (s : String) : List String :=
  match parseExpr s with
  | .error _ => []
  | .ok parsed => parsed.segments.filterMap fun
    | .literal _ => none
    | .expression e => some e

private theorem mem_expressionsOf {s e : String} :
    e ∈ expressionsOf s ↔ ∃ parsed, parseExpr s = .ok parsed ∧ .expression e ∈ parsed.segments := by
  unfold expressionsOf
  cases hparse : parseExpr s with
  | error err => simp
  | ok parsed =>
    simp only [List.mem_filterMap, Except.ok.injEq, exists_eq_left']
    constructor
    · rintro ⟨seg, hseg, he⟩
      cases seg with
      | literal t => cases he
      | expression t =>
        cases he
        exact hseg
    · intro he
      exact ⟨.expression e, he, rfl⟩

private theorem isLiteral_false {s e : String} {parsed : ParsedExpression} (hparse : parseExpr s = .ok parsed)
    (he : .expression e ∈ parsed.segments) : parsed.isLiteral = false := by
  unfold parseExpr at hparse
  cases hopen : splitOpen s.toList with
  | none =>
    simp only [hopen, Except.ok.injEq] at hparse
    rw [← hparse] at he
    simp at he
  | some p =>
    simp only [hopen] at hparse
    split at hparse
    · cases hparse
    · cases hparse
      rfl

private theorem mem_stringRefs {s key : String} :
    key ∈ stringRefs s ↔ ∃ e ∈ expressionsOf s, Mention e.toList key.toList := by
  simp only [mem_expressionsOf, ← mem_extractIdentifiers]
  unfold stringRefs
  cases hparse : parseExpr s with
  | error err => simp
  | ok parsed =>
    constructor
    · intro h
      dsimp only at h
      split at h
      · cases h
      · obtain ⟨seg, hseg, hkey⟩ := List.mem_flatMap.mp h
        cases seg with
        | literal t => cases hkey
        | expression e => exact ⟨e, ⟨parsed, rfl, hseg⟩, hkey⟩
    · rintro ⟨e, ⟨parsed', heq, he⟩, hkey⟩
      cases heq
      have hlit := isLiteral_false hparse he
      simp only [hlit, Bool.false_eq_true, if_false]
      exact List.mem_flatMap.mpr ⟨.expression e, he, hkey⟩

mutual

/-- The walk of the compiler visits the strings that the check at startup visits. -/
theorem walkConfigStrings_eq : ∀ (fields : Config) (pfx : String),
    walkConfigStrings fields = (walkConfigExpressions fields pfx).map Prod.snd
  | [], _ => rfl
  | (key, v) :: fields, pfx => by
    rw [walkConfigStrings, walkConfigExpressions, List.map_append, ← walkConfigStrings_eq fields pfx,
      ← walkValueStrings_eq v]

theorem walkValueStrings_eq : ∀ (v : Value) (path : String),
    walkValueStrings v = (walkFieldExpressions v path).map Prod.snd
  | .str s, _ => by simp [walkValueStrings, walkFieldExpressions]
  | .obj fields, path => by rw [walkValueStrings, walkFieldExpressions, ← walkConfigStrings_eq fields path]
  | .arr items, path => by rw [walkValueStrings, walkFieldExpressions, ← walkItemStrings_eq items path 0]
  | .null, _ => by simp [walkValueStrings, walkFieldExpressions]
  | .bool _, _ => by simp [walkValueStrings, walkFieldExpressions]
  | .num _, _ => by simp [walkValueStrings, walkFieldExpressions]

theorem walkItemStrings_eq : ∀ (items : List Value) (path : String) (i : Nat),
    walkItemStrings items = (walkItemExpressions items path i).map Prod.snd
  | [], _, _ => rfl
  | .str s :: items, path, i => by
    rw [walkItemStrings, walkItemExpressions, List.map_cons, ← walkItemStrings_eq items path (i + 1)]
  | .obj fields :: items, path, i => by
    rw [walkItemStrings, walkItemExpressions, List.map_append, ← walkItemStrings_eq items path (i + 1),
      ← walkConfigStrings_eq fields]
  | .arr _ :: items, path, i => by simp [walkItemStrings, walkItemExpressions, walkItemStrings_eq items path (i + 1)]
  | .null :: items, path, i => by simp [walkItemStrings, walkItemExpressions, walkItemStrings_eq items path (i + 1)]
  | .bool _ :: items, path, i => by simp [walkItemStrings, walkItemExpressions, walkItemStrings_eq items path (i + 1)]
  | .num _ :: items, path, i => by simp [walkItemStrings, walkItemExpressions, walkItemStrings_eq items path (i + 1)]

end

private theorem mem_walkConfigStrings {config : Config} {s : String} :
    s ∈ walkConfigStrings config ↔ FlatStringIn (.obj config) s := by
  rw [walkConfigStrings_eq config "", ← mem_walkConfigExpressions ""]
  simp

/-- The references of a config are the keys that are mentioned plainly in an expression outside the arrays that are
items of arrays. -/
theorem mem_extractConfigRefs {config : Config} {key : String} :
    key ∈ extractConfigRefs config ↔
      ∃ s e, FlatStringIn (.obj config) s ∧ e ∈ expressionsOf s ∧ Mention e.toList key.toList := by
  rw [extractConfigRefs, List.mem_dedup, List.mem_flatMap]
  constructor
  · rintro ⟨s, hs, hkey⟩
    obtain ⟨e, he, hm⟩ := mem_stringRefs.mp hkey
    exact ⟨s, e, mem_walkConfigStrings.mp hs, he, hm⟩
  · rintro ⟨s, e, hs, he, hm⟩
    exact ⟨s, mem_walkConfigStrings.mpr hs, mem_stringRefs.mpr ⟨e, he, hm⟩⟩

/-- All outputs that the templates of a config read are among its references if and only if each of them is mentioned
plainly in an expression outside the arrays that are items of arrays.  `reads` is the expression language's own account
of which members of `nodes` an expression accesses. -/
theorem extractConfigRefs_complete_iff (reads : String → String → Prop) (config : Config) :
    (∀ key s e, StringIn (.obj config) s → e ∈ expressionsOf s → reads e key → key ∈ extractConfigRefs config) ↔
    (∀ key s e, StringIn (.obj config) s → e ∈ expressionsOf s → reads e key →
      ∃ s' e', FlatStringIn (.obj config) s' ∧ e' ∈ expressionsOf s' ∧ Mention e'.toList key.toList) := by
  constructor
  · intro h key s e hs he hr
    exact mem_extractConfigRefs.mp (h key s e hs he hr)
  · intro h key s e hs he hr
    exact mem_extractConfigRefs.mpr (h key s e hs he hr)

/-- The identifier characters of the expression language, as far as they are ASCII. -/
def isExprIdentChar (c : Char) : Bool := c.isAlphanum || c == '_' || c == '$'

/-- The text has the member access `nodes.key`: `nodes` is no part of a longer name, and neither is `key`. -/
def MemberAccess (e key : String) : Prop :=
  ∃ pre post, e.toList = pre ++ nodesDot ++ key.toList ++ post ∧
    (∀ c ∈ pre.getLast?, isExprIdentChar c = false ∧ c ≠ '.') ∧ key ≠ "" ∧
    (∀ c ∈ key.toList, isExprIdentChar c = true) ∧ ∀ c ∈ post.head?, isExprIdentChar c = false

def subtraction : Config := [("value", .str "\x7b\x7b 1-nodes.a.x \x7d\x7d")]

/-- The minus sign is read as a part of the name behind it, and the reference is lost. -/
theorem extractConfigRefs_incomplete :
    ¬ ∀ (config : Config) (key s e : String), StringIn (.obj config) s → e ∈ expressionsOf s → MemberAccess e key →
      key ∈ extractConfigRefs config := by
  intro h
  have hs : StringIn (.obj subtraction) "\x7b\x7b 1-nodes.a.x \x7d\x7d" := .field List.mem_cons_self (.str _)
  have he : "1-nodes.a.x" ∈ expressionsOf "\x7b\x7b 1-nodes.a.x \x7d\x7d" := by decide +kernel
  have haccess : MemberAccess "1-nodes.a.x" "a" :=
    ⟨['1', '-'], ['.', 'x'], by decide, by simp [isExprIdentChar], by decide, List.all_eq_true.mp (by decide),
      by simp [isExprIdentChar]⟩
  have hnot : "a" ∉ extractConfigRefs subtraction := by decide +kernel
  exact hnot (h subtraction "a" _ _ hs he haccess)

end Noda.Engine
