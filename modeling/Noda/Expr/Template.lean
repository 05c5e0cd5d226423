import Mathlib.Data.List.Chain
import Mathlib.Data.List.Infix
import Mathlib.Data.List.TakeWhile
import Noda.Engine.Refs

/-!
# Templates read back

`expr.Parse` against the grammar of templates.  An expression is written between `{{` and `}}`; its braces are balanced
outside string literals (`Balanced`).  Parsing the text of a well-formed list of segments gives the list back, and
every text that is accepted is its segments written out, up to white space just inside the delimiters.
-/

namespace Noda.Expr

open Engine

/-! ## The grammar -/

/-- The rest of a string literal, from behind the opening quote `q` to the closing one. -/
inductive Quoted (q : Char) : List Char → Prop where
  | close : Quoted q [q]
  | escape (e : Char) {cs : List Char} : Quoted q cs → Quoted q ('\\' :: e :: cs)
  | char {c : Char} {cs : List Char} : c ≠ q → c ≠ '\\' → Quoted q cs → Quoted q (c :: cs)

/-- Text with balanced braces outside its string literals, which are all closed. -/
inductive Balanced : List Char → Prop where
  | nil : Balanced []
  | char {c : Char} {cs : List Char} : c ∉ ['"', '\'', '{', '}'] → Balanced cs → Balanced (c :: cs)
  | braces {inner cs : List Char} : Balanced inner → Balanced cs → Balanced ('{' :: inner ++ '}' :: cs)
  | literal {q : Char} {body cs : List Char} : q ∈ ['"', '\''] → Quoted q body → Balanced cs →
      Balanced (q :: body ++ cs)

/-- A segment that can be written in a template. -/
def SegmentOk : Segment → Prop
  | .literal s => s ≠ "" ∧ ¬ ['{', '{'] <:+: s.toList ∧ s.toList.getLast? ≠ some '{'
  | .expression e => e ≠ "" ∧ trimSpace e.toList = e.toList ∧ Balanced e.toList

def isExpression : Segment → Bool
  | .literal _ => false
  | .expression _ => true

/-- A list of segments as a template has them: literals are never adjacent and at least one segment is an
expression. -/
structure WellFormed (segments : List Segment) : Prop where
  ok : ∀ s ∈ segments, SegmentOk s
  apart : segments.IsChain fun s t => isExpression s = true ∨ isExpression t = true
  expression : ∃ s ∈ segments, isExpression s = true

/-- The text of one segment. -/
def renderSegment : Segment → List Char
  | .literal s => s.toList
  | .expression e => '{' :: '{' :: ' ' :: e.toList ++ [' ', '}', '}']

def renderChars (segments : List Segment) : List Char := segments.flatMap renderSegment

/-- The template text of a list of segments. -/
def render (segments : List Segment) : String := String.ofList (renderChars segments)

/-- `cs` is the text of the segments, with any white space just inside the delimiters. -/
inductive Written : List Segment → List Char → Prop where
  | nil : Written [] []
  | literal (s : String) {segments : List Segment} {cs : List Char} : Written segments cs →
      Written (.literal s :: segments) (s.toList ++ cs)
  | expression (e : String) {before after : List Char} {segments : List Segment} {cs : List Char} :
      (∀ c ∈ before, isSpace c) → (∀ c ∈ after, isSpace c) → Written segments cs →
      Written (.expression e :: segments) ('{' :: '{' :: before ++ e.toList ++ after ++ '}' :: '}' :: cs)

/-! ## The opening delimiter -/

private theorem splitOpen_sound {cs before after : List Char} (h : splitOpen cs = some (before, after)) :
    cs = before ++ '{' :: '{' :: after := by
  induction cs using splitOpen.induct generalizing before with
  | case1 cs =>
    simp only [splitOpen, Option.some.injEq, Prod.mk.injEq] at h
    obtain ⟨rfl, rfl⟩ := h
    rfl
  | case2 c cs hne hs ih => simp [splitOpen, hs] at h
  | case3 c cs hne b a hs ih =>
    simp only [splitOpen, hs, Option.some.injEq, Prod.mk.injEq] at h
    obtain ⟨rfl, rfl⟩ := h
    rw [ih hs]
    rfl
  | case4 => simp [splitOpen] at h

/-- A literal without `{{` at whose end no brace is open reaches up to the next delimiter. -/
private theorem splitOpen_append {cs : List Char} (rest : List Char) (hin : ¬ ['{', '{'] <:+: cs)
    (hlast : cs.getLast? ≠ some '{') : splitOpen (cs ++ '{' :: '{' :: rest) = some (cs, rest) := by
  induction cs with
  | nil => rfl
  | cons c cs ih =>
    have hin' : ¬ ['{', '{'] <:+: cs := fun h => hin (h.trans (List.suffix_cons c cs).isInfix)
    have hlast' : cs.getLast? ≠ some '{' := by
      intro h
      cases cs with
      | nil => cases h
      | cons d cs => exact hlast (by rw [List.getLast?_cons_cons]; exact h)
    have hne : ∀ tail, c = '{' → cs ++ '{' :: '{' :: rest = '{' :: tail → False := by
      intro tail hc ht
      subst hc
      cases cs with
      | nil => exact hlast rfl
      | cons d cs =>
        obtain ⟨rfl, -⟩ := List.cons.inj ht
        exact hin ⟨[], cs, rfl⟩
    rw [List.cons_append, splitOpen, ih hin' hlast']
    exact hne

private theorem splitOpen_eq_none_iff {cs : List Char} : splitOpen cs = none ↔ ¬ ['{', '{'] <:+: cs := by
  induction cs using splitOpen.induct with
  | case1 cs =>
    have hin : ['{', '{'] <:+: '{' :: '{' :: cs := ⟨[], cs, rfl⟩
    simp [splitOpen, hin]
  | case2 c cs hne hs ih =>
    simp only [splitOpen, hs, true_iff]
    intro hin
    rcases List.infix_cons_iff.mp hin with hpre | hin
    · obtain ⟨rest, hrest⟩ := hpre
      obtain ⟨rfl, rfl⟩ := List.cons.inj hrest
      exact hne rest rfl rfl
    · exact ih.mp hs hin
  | case3 c cs hne before after hs ih =>
    have hin : ['{', '{'] <:+: c :: cs := ⟨c :: before, after, by rw [splitOpen_sound hs]; simp⟩
    simp [splitOpen, hs, hin]
  | case4 => simp [splitOpen]

/-! ## The closing delimiter -/

private theorem splitClose_sound {depth : Nat} {quote : Option Char} {cs before after : List Char}
    (h : splitClose depth quote cs = some (before, after)) : cs = before ++ '}' :: '}' :: after := by
  fun_induction splitClose depth quote cs generalizing before after with
  | case1 | case2 | case3 | case5 | case7 | case9 | case12 => cases h
  | case4 _ q e cs b a hs ih =>
    cases h
    rw [ih hs]
    rfl
  | case6 _ q c cs _ b a hs ih | case8 _ c cs _ b a hs ih =>
    cases h
    rw [ih hs]
    rfl
  | case10 _ cs b a hs _ ih =>
    cases h
    rw [ih hs]
    rfl
  | case13 _ c cs _ _ _ b a hs ih =>
    cases h
    rw [ih hs]
    rfl
  | case11 _ c cs _ _ hc =>
    cases h
    obtain ⟨rfl, -, hcs⟩ := hc
    cases cs with
    | nil => cases hcs
    | cons d cs =>
      obtain rfl : d = '}' := by simpa using hcs
      rfl

/-- What a scan finds behind `pre`, with `pre` in front. -/
def prependTo (pre : List Char) (r : Option (List Char × List Char)) : Option (List Char × List Char) :=
  r.map fun p => (pre ++ p.1, p.2)

@[simp] theorem prependTo_nil (r : Option (List Char × List Char)) : prependTo [] r = r := by
  cases r <;> rfl

@[simp] theorem prependTo_prependTo (xs ys : List Char) (r : Option (List Char × List Char)) :
    prependTo xs (prependTo ys r) = prependTo (xs ++ ys) r := by
  cases r <;> simp [prependTo]

/-- Inside a string literal the scanner passes over a character that is no backslash. -/
private theorem splitClose_quote_cons {q c : Char} (hc : c ≠ '\\') (depth : Nat) (cs : List Char) :
    splitClose depth (some q) (c :: cs) = prependTo [c] (splitClose depth (if c = q then none else some q) cs) := by
  rw [splitClose.eq_def]
  simp only [if_neg hc]
  cases splitClose depth (if c = q then none else some q) cs <;> rfl

/-- The scanner leaves a string literal where it was, at the same depth. -/
private theorem splitClose_quoted {q : Char} {body : List Char} (hb : Quoted q body) (hq : q ≠ '\\') (depth : Nat)
    (rest : List Char) :
    splitClose depth (some q) (body ++ rest) = prependTo body (splitClose depth none rest) := by
  induction hb with
  | close =>
    rw [List.singleton_append, splitClose_quote_cons hq, if_pos rfl]
  | @escape e cs _ ih =>
    rw [List.cons_append, List.cons_append, splitClose, if_pos rfl, ih]
    cases splitClose depth none rest <;> rfl
  | @char c cs hc hesc _ ih =>
    rw [List.cons_append, splitClose_quote_cons hesc, if_neg hc, ih, prependTo_prependTo]
    rfl

/-- The scanner passes over balanced text and comes out with the state it had. -/
private theorem splitClose_balanced {cs : List Char} (hb : Balanced cs) (depth : Nat) (rest : List Char) :
    splitClose depth none (cs ++ rest) = prependTo cs (splitClose depth none rest) := by
  induction hb generalizing depth rest with
  | nil => simp
  | @char c cs hc _ ih =>
    simp only [List.mem_cons, List.not_mem_nil, or_false, not_or] at hc
    obtain ⟨hdq, hsq, hopen, hclose⟩ := hc
    rw [List.cons_append, splitClose, if_neg (by simp [hdq, hsq]), if_neg hopen, if_neg (by simp [hclose]),
      if_neg hclose, ih]
    cases splitClose depth none rest <;> rfl
  | @braces inner cs _ _ ihi ihc =>
    -- the inner text is scanned one level deeper, where its closing brace is no delimiter
    have hclose : splitClose (depth + 1) none ('}' :: (cs ++ rest)) =
        prependTo ('}' :: cs) (splitClose depth none rest) := by
      rw [splitClose, if_neg (by decide), if_neg (by decide), if_neg (by simp), if_pos rfl, Nat.add_sub_cancel, ihc]
      cases splitClose depth none rest <;> rfl
    have happ : ('{' :: inner ++ '}' :: cs) ++ rest = '{' :: (inner ++ '}' :: (cs ++ rest)) := by simp
    rw [happ, splitClose, if_neg (by decide), if_pos rfl, ihi, hclose]
    cases splitClose depth none rest <;> simp [prependTo]
  | @literal q body cs hq hbody _ ih =>
    have hq' : q = '"' ∨ q = '\'' := by simpa using hq
    have hesc : q ≠ '\\' := by
      rintro rfl
      simp at hq'
    rw [List.cons_append, List.cons_append, List.append_assoc, splitClose, if_pos hq', splitClose_quoted hbody hesc, ih]
    cases splitClose depth none rest <;> simp [prependTo]

/-- The written form of an expression is closed at its own delimiter. -/
private theorem splitClose_expression {e : List Char} (hb : Balanced e) (rest : List Char) :
    splitClose 0 none (' ' :: e ++ ' ' :: '}' :: '}' :: rest) = some (' ' :: e ++ [' '], rest) := by
  have hsp : Balanced (' ' :: e) := .char (by decide) hb
  have hend : splitClose 0 none (' ' :: '}' :: '}' :: rest) = some ([' '], rest) := by
    simp [splitClose]
  rw [splitClose_balanced hsp, hend]
  rfl

/-! ## Trimming -/

private theorem trimSpace_split (cs : List Char) : ∃ before after,
    (∀ c ∈ before, isSpace c) ∧ (∀ c ∈ after, isSpace c) ∧ cs = before ++ trimSpace cs ++ after := by
  have hl : cs.takeWhile isSpace ++ cs.dropWhile isSpace = cs := List.takeWhile_append_dropWhile
  have hr : (cs.dropWhile isSpace).reverse.takeWhile isSpace ++ (cs.dropWhile isSpace).reverse.dropWhile isSpace =
      (cs.dropWhile isSpace).reverse := List.takeWhile_append_dropWhile
  refine ⟨cs.takeWhile isSpace, ((cs.dropWhile isSpace).reverse.takeWhile isSpace).reverse,
    fun c hc => List.mem_takeWhile_imp hc, fun c hc => List.mem_takeWhile_imp (List.mem_reverse.mp hc), ?_⟩
  have hr' := congrArg List.reverse hr
  rw [List.reverse_append, List.reverse_reverse] at hr'
  rw [List.append_assoc, trimSpace, hr', hl]

/-- Text with no white space at its ends is what is left of it between spaces. -/
private theorem trimSpace_padded {e : List Char} (hne : e ≠ []) (ht : trimSpace e = e) :
    trimSpace (' ' :: e ++ [' ']) = e := by
  have hdrop : e.dropWhile isSpace = e := by
    have hlen : (trimSpace e).length ≤ (e.dropWhile isSpace).length := by
      simpa [trimSpace] using (List.dropWhile_suffix isSpace (l := (e.dropWhile isSpace).reverse)).length_le
    rw [ht] at hlen
    exact (List.dropWhile_suffix isSpace).eq_of_length_le hlen
  have hhead : (e ++ [' ']).dropWhile isSpace = e ++ [' '] := by
    cases e with
    | nil => exact absurd rfl hne
    | cons c cs =>
      have hc : isSpace c = false := by
        cases hc : isSpace c with
        | false => rfl
        | true =>
          rw [List.dropWhile_cons_of_pos hc] at hdrop
          have := (List.dropWhile_suffix isSpace (l := cs)).length_le
          rw [hdrop, List.length_cons] at this
          omega
      rw [List.cons_append, List.dropWhile_cons_of_neg (by simp [hc])]
  have hspace : isSpace ' ' = true := by decide
  have hrev : (e.reverse.dropWhile isSpace).reverse = e := by
    rw [trimSpace, hdrop] at ht
    exact ht
  rw [trimSpace, List.cons_append, List.dropWhile_cons_of_pos hspace, hhead, List.reverse_append]
  show ((' ' :: e.reverse).dropWhile isSpace).reverse = e
  rw [List.dropWhile_cons_of_pos hspace, hrev]

/-! ## Parsing what was written -/

/-- The segment of the literal text in front of a delimiter. -/
def pendingSegment (pending : List Char) : List Segment :=
  if pending = [] then [] else [.literal (String.ofList pending)]

/-- One round of the loop of `Parse` reads the pending literal and the expression behind it. -/
private theorem parseSegments_expression (input : String) (fuel : Nat) {pending : List Char} {e : String}
    (rest : List Char)
    (acc : List Segment) (hin : ¬ ['{', '{'] <:+: pending) (hlast : pending.getLast? ≠ some '{')
    (he : SegmentOk (.expression e)) :
    parseSegments input (fuel + 1) (pending ++ (renderSegment (.expression e) ++ rest)) acc =
      parseSegments input fuel rest (acc ++ pendingSegment pending ++ [.expression e]) := by
  obtain ⟨hne, htrim, hbal⟩ := he
  have hne' : e.toList ≠ [] := by simpa using hne
  have htext : renderSegment (.expression e) ++ rest =
      '{' :: '{' :: (' ' :: e.toList ++ ' ' :: '}' :: '}' :: rest) := by
    simp [renderSegment]
  have hopen := splitOpen_append (' ' :: e.toList ++ ' ' :: '}' :: '}' :: rest) hin hlast
  have hclose := splitClose_expression hbal rest
  have htrim' := trimSpace_padded hne' htrim
  rw [htext, parseSegments.eq_3 _ _ _ _ (by simp)]
  simp only [hopen, hclose, htrim', if_neg hne', String.ofList_toList]
  by_cases hp : pending = []
  · simp [hp, pendingSegment]
  · simp [hp, pendingSegment]

/-- The loop of `Parse` over a pending literal and the text of the segments behind it. -/
private theorem parseSegments_render (input : String) {segments : List Segment} (pending : List Char) {fuel : Nat}
    (acc : List Segment) (hok : ∀ s ∈ segments, SegmentOk s) (hin : ¬ ['{', '{'] <:+: pending)
    (hlast : pending.getLast? ≠ some '{')
    (hapart : (pendingSegment pending ++ segments).IsChain fun s t => isExpression s = true ∨ isExpression t = true)
    (hfuel : (pending ++ renderChars segments).length ≤ fuel) :
    parseSegments input fuel (pending ++ renderChars segments) acc =
      .ok (acc ++ pendingSegment pending ++ segments) := by
  induction segments generalizing pending fuel acc with
  | nil =>
    cases pending with
    | nil => simp [renderChars, parseSegments, pendingSegment]
    | cons c cs =>
      cases fuel with
      | zero => simp at hfuel
      | succ fuel => simp [renderChars, parseSegments, splitOpen_eq_none_iff.mpr hin, pendingSegment]
  | cons s segments ih =>
    have hok' : ∀ t ∈ segments, SegmentOk t := fun t ht => hok t (List.mem_cons_of_mem _ ht)
    have hs := hok s List.mem_cons_self
    cases s with
    | expression e =>
      cases fuel with
      | zero => simp [renderChars, renderSegment] at hfuel
      | succ fuel =>
        have hchain := (List.isChain_append.mp hapart).2.1.tail
        have hlen : (renderChars segments).length ≤ fuel := by
          simp only [renderChars, List.flatMap_cons, List.length_append, renderSegment, List.length_cons] at hfuel ⊢
          omega
        show parseSegments input (fuel + 1) (pending ++ (renderSegment (.expression e) ++ renderChars segments)) acc = _
        rw [parseSegments_expression input fuel (renderChars segments) acc hin hlast hs]
        have hrest := ih [] (acc ++ pendingSegment pending ++ [.expression e]) hok' (by simp) (by simp)
          hchain hlen
        simpa [pendingSegment] using hrest
    | literal t =>
      obtain ⟨hne, hin', hlast'⟩ := hs
      have hne' : t.toList ≠ [] := by simpa using hne
      -- a literal is pending only in front of an expression
      have hpend : pending = [] := by
        by_contra hp
        simp [pendingSegment, hp, isExpression] at hapart
      subst hpend
      have hrest := ih t.toList acc hok' hin' hlast' (by simpa [pendingSegment, hne'] using hapart) hfuel
      simpa [pendingSegment, hne', renderChars, renderSegment] using hrest

/-! ## Writing what was parsed -/

theorem Written.pending {segments : List Segment} {cs : List Char} (pending : List Char) (h : Written segments cs) :
    Written (pendingSegment pending ++ segments) (pending ++ cs) := by
  by_cases hp : pending = []
  · simpa [hp, pendingSegment] using h
  · have hw := Written.literal (String.ofList pending) h
    simpa [hp, pendingSegment] using hw

/-- Every round of the loop of `Parse` reads off a part of the remaining text. -/
private theorem parseSegments_written {input : String} {fuel : Nat} {remaining : List Char}
    {acc segments : List Segment}
    (hfuel : remaining.length ≤ fuel) (h : parseSegments input fuel remaining acc = .ok segments) :
    ∃ new, segments = acc ++ new ∧ Written new remaining := by
  induction fuel generalizing remaining acc with
  | zero =>
    have hrem : remaining = [] := List.length_eq_zero_iff.mp (Nat.le_zero.mp hfuel)
    subst hrem
    cases h
    exact ⟨[], by simp, .nil⟩
  | succ fuel ih =>
    by_cases hrem : remaining = []
    · subst hrem
      cases h
      exact ⟨[], by simp, .nil⟩
    rw [parseSegments.eq_3 _ _ _ _ (by simpa using hrem)] at h
    cases hopen : splitOpen remaining with
    | none =>
      simp only [hopen, Except.ok.injEq] at h
      have hw := Written.pending remaining .nil
      simp only [pendingSegment, hrem, if_false, List.append_nil] at hw
      exact ⟨_, h.symm, hw⟩
    | some p =>
      obtain ⟨before, after⟩ := p
      have hbefore := splitOpen_sound hopen
      cases hclose : splitClose 0 none after with
      | none => simp [hopen, hclose] at h
      | some r =>
        obtain ⟨text, rest⟩ := r
        have hafter := splitClose_sound hclose
        by_cases hempty : trimSpace text = []
        · simp [hopen, hclose, hempty] at h
        · simp only [hopen, hclose, if_neg hempty] at h
          have hlen : rest.length ≤ fuel := by
            rw [hbefore, hafter] at hfuel
            simp only [List.length_append, List.length_cons] at hfuel
            omega
          obtain ⟨new, hnew, hw⟩ := ih hlen h
          obtain ⟨left, right, hleft, hright, htext⟩ := trimSpace_split text
          refine ⟨pendingSegment before ++ .expression (String.ofList (trimSpace text)) :: new, ?_, ?_⟩
          · by_cases hb : before = []
            · simp [hnew, hb, pendingSegment]
            · simp [hnew, hb, pendingSegment]
          · have hexpr := Written.pending before
              (Written.expression (String.ofList (trimSpace text)) hleft hright hw)
            have heq : remaining = before ++ ('{' :: '{' :: left ++ (String.ofList (trimSpace text)).toList ++ right ++
                '}' :: '}' :: rest) := by
              rw [hbefore, hafter, String.toList_ofList]
              conv_lhs => rw [htext]
              simp
            rw [heq]
            exact hexpr

/-! ## The round trip -/

private theorem splitOpen_render {segments : List Segment} (h : WellFormed segments) :
    splitOpen (renderChars segments) ≠ none := by
  obtain ⟨s, hs, hexpr⟩ := h.expression
  intro hnone
  refine splitOpen_eq_none_iff.mp hnone ?_
  cases s with
  | literal t => cases hexpr
  | expression e =>
    have hin : renderSegment (.expression e) <:+: renderChars segments := by
      obtain ⟨l, r, rfl⟩ := List.append_of_mem hs
      exact ⟨renderChars l, renderChars r, by simp [renderChars]⟩
    exact List.IsInfix.trans ⟨[], ' ' :: e.toList ++ [' ', '}', '}'], rfl⟩ hin

private theorem parseExpr_render {segments : List Segment} (h : WellFormed segments) :
    ∃ parsed, parseExpr (render segments) = .ok parsed ∧ parsed.segments = segments ∧ parsed.isLiteral = false ∧
      (parsed.isSimple = true ↔ ∃ e, segments = [.expression e]) := by
  have hchars : (render segments).toList = renderChars segments := String.toList_ofList
  have hloop : parseSegments (render segments) (renderChars segments).length (renderChars segments) [] =
      .ok segments := by
    have hrest := parseSegments_render (render segments) [] [] h.ok (by simp) (by simp)
      (by simpa [pendingSegment] using h.apart) (Nat.le_refl _)
    simpa [pendingSegment] using hrest
  obtain ⟨p, hopen⟩ := Option.ne_none_iff_exists'.mp (splitOpen_render h)
  simp only [parseExpr, hchars, hopen, hloop]
  refine ⟨_, rfl, rfl, rfl, ?_⟩
  constructor
  · intro hsimple
    dsimp only at hsimple
    split at hsimple
    · exact ⟨_, rfl⟩
    · cases hsimple
  · rintro ⟨e, rfl⟩
    rfl

/-- Every text that `Parse` accepts is its segments written out, up to white space just inside the delimiters. -/
private theorem parseExpr_written {input : String} {parsed : ParsedExpression} (h : parseExpr input = .ok parsed) :
    Written parsed.segments input.toList := by
  unfold parseExpr at h
  cases hopen : splitOpen input.toList with
  | none =>
    simp only [hopen, Except.ok.injEq] at h
    subst h
    simpa using Written.literal input .nil
  | some p =>
    cases hloop : parseSegments input input.toList.length input.toList [] with
    | error e => simp [hopen, hloop] at h
    | ok segments =>
      simp only [hopen, hloop, Except.ok.injEq] at h
      subst h
      obtain ⟨new, hnew, hw⟩ := parseSegments_written (Nat.le_refl _) hloop
      rw [List.nil_append] at hnew
      rw [hnew]
      exact hw

/-- `Parse` and the writing of templates are inverse to each other, up to white space just inside the delimiters. -/
theorem parseExpr_round_trip :
    (∀ segments : List Segment, WellFormed segments →
      ∃ parsed, parseExpr (render segments) = .ok parsed ∧ parsed.segments = segments ∧ parsed.isLiteral = false ∧
        (parsed.isSimple = true ↔ ∃ e, segments = [.expression e])) ∧
    (∀ (input : String) (parsed : ParsedExpression), parseExpr input = .ok parsed →
      Written parsed.segments input.toList) :=
  ⟨fun _ h => parseExpr_render h, fun _ _ h => parseExpr_written h⟩

/-- The segments of `a{b{{ {k: '}'}.k }}}`. -/
def mixedSegments : List Segment := [.literal "a\x7bb", .expression "\x7bk: '\x7d'\x7d.k", .literal "\x7d"]

private theorem mixedSegments_wellFormed : WellFormed mixedSegments where
  ok := by
    have hs : Balanced ('\'' :: ['}', '\''] ++ []) :=
      .literal (by decide) (.char (by decide) (by decide) .close) .nil
    have hk : Balanced "k: '\x7d'".toList := .char (by decide) (.char (by decide) (.char (by decide) hs))
    have he : Balanced "\x7bk: '\x7d'\x7d.k".toList :=
      .braces hk (.char (by decide) (.char (by decide) .nil))
    simp only [mixedSegments, List.mem_cons, List.not_mem_nil, or_false, forall_eq_or_imp, forall_eq, SegmentOk]
    exact ⟨by decide, ⟨by decide, by decide, he⟩, by decide⟩
  apart := by decide
  expression := by decide

theorem parseExpr_round_trip_mixed :
    (∃ parsed, parseExpr (render mixedSegments) = .ok parsed ∧ parsed.segments = mixedSegments ∧
      parsed.isLiteral = false ∧ (parsed.isSimple = true ↔ ∃ e, mixedSegments = [.expression e])) ∧
    Written [.literal "a", .expression "b"] "a\x7b\x7bb  \x7d\x7d".toList :=
  ⟨parseExpr_round_trip.1 mixedSegments mixedSegments_wellFormed,
    parseExpr_round_trip.2 "a\x7b\x7bb  \x7d\x7d"
      ⟨"a\x7b\x7bb  \x7d\x7d", [.literal "a", .expression "b"], false, false⟩ (by decide +kernel)⟩

end Noda.Expr
