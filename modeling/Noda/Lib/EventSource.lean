import Mathlib.Data.List.Basic

/-!
# The EventSource grammar

What a reader of a `text/event-stream` makes of the bytes.  A line ends in LF, CR or CRLF; a line of a field has a
name, a colon and a value, of which one leading space is removed; a line that begins with a colon is a comment.  A
blank line dispatches the event of the fields before it, if one of them was `data`; the values of several are joined by
LF.  The last `id` stays until there is another one.  An unfinished event at the end is dropped.  `ignoreNul` says
whether an `id` with a NUL is ignored.

The parser takes one byte at a time (`feed`), so what it does with the bytes of two texts is what it does with the one
and then with the other (`feed_append`).  What it dispatches is made of values of lines (`wellFormed_feed`) and no
longer than the lines are (`length_first_le`).
-/

namespace EventSource

abbrev Bytes := List UInt8

def lf : UInt8 := 10
def cr : UInt8 := 13
def colon : UInt8 := 58
def space : UInt8 := 32

def isLineEnd (b : UInt8) : Bool := b == lf || b == cr

/-- An event as it is dispatched; an empty name is the default one. -/
structure Dispatched where
  event : Bytes
  data : Bytes
  lastEventId : Bytes
  deriving DecidableEq, Repr

/-- The unfinished line, whether the byte before was a CR, the values of the `data` fields of the unfinished event, its
name, and the last id. -/
structure State where
  line : Bytes
  afterCr : Bool
  data : List Bytes
  event : Bytes
  id : Bytes
  deriving DecidableEq, Repr

def State.initial : State := ⟨[], false, [], [], []⟩

/-- One leading space is removed. -/
def dropSpace : Bytes → Bytes
  | b :: bs => if b = space then bs else b :: bs
  | [] => []

/-- The name and the value of a line. -/
def splitField (line : Bytes) : Bytes × Bytes :=
  (line.takeWhile (· ≠ colon), dropSpace ((line.dropWhile (· ≠ colon)).drop 1))

def joinLines : List Bytes → Bytes
  | [] => []
  | [v] => v
  | v :: vs => v ++ lf :: joinLines vs

def dataName : Bytes := [100, 97, 116, 97]
def eventName : Bytes := [101, 118, 101, 110, 116]
def idName : Bytes := [105, 100]

section

variable (ignoreNul : Bool)

/-- A field of an event. -/
def State.field (s : State) (name value : Bytes) : State :=
  if name = dataName then { s with data := s.data ++ [value] }
  else if name = eventName then { s with event := value }
  else if name = idName then if ignoreNul ∧ 0 ∈ value then s else { s with id := value }
  else s

def State.dispatch (s : State) : State × List Dispatched :=
  ({ s with data := [], event := [] }, if s.data = [] then [] else [⟨s.event, joinLines s.data, s.id⟩])

def State.endLine (s : State) : State × List Dispatched :=
  let s' := { s with line := [] }
  if s.line = [] then s'.dispatch
  else if s.line.head? = some colon then (s', [])
  else (s'.field ignoreNul (splitField s.line).1 (splitField s.line).2, [])

def State.byte (s : State) (b : UInt8) : State × List Dispatched :=
  if b = lf then
    if s.afterCr then ({ s with afterCr := false }, []) else s.endLine ignoreNul
  else if b = cr then
    let (s', out) := { s with afterCr := false }.endLine ignoreNul
    ({ s' with afterCr := true }, out)
  else ({ s with line := s.line ++ [b], afterCr := false }, [])

def feed : State → Bytes → State × List Dispatched
  | s, [] => (s, [])
  | s, b :: bs =>
    let (s', out) := s.byte ignoreNul b
    let (s'', outs) := feed s' bs
    (s'', out ++ outs)

/-- The events of a stream. -/
def parse (bs : Bytes) : List Dispatched := (feed ignoreNul .initial bs).2

variable {ignoreNul} {s : State}

theorem feed_append (s : State) (bs bs' : Bytes) : feed ignoreNul s (bs ++ bs') =
    ((feed ignoreNul (feed ignoreNul s bs).1 bs').1,
      (feed ignoreNul s bs).2 ++ (feed ignoreNul (feed ignoreNul s bs).1 bs').2) := by
  induction bs generalizing s with
  | nil => simp [feed]
  | cons b bs ih => simp [feed, ih, List.append_assoc]

/-! ### One line -/

def Inline (bs : Bytes) : Prop := ∀ b ∈ bs, isLineEnd b = false

instance (bs : Bytes) : Decidable (Inline bs) := List.decidableBAll (fun b => isLineEnd b = false) bs

theorem isLineEnd_eq_false {b : UInt8} : isLineEnd b = false ↔ b ≠ lf ∧ b ≠ cr := by
  simp [isLineEnd]

private theorem feed_text (hcr : s.afterCr = false) {text : Bytes} (h : Inline text) :
    feed ignoreNul s text = ({ s with line := s.line ++ text }, []) := by
  induction text generalizing s with
  | nil => simp [feed]
  | cons b text ih =>
    obtain ⟨hlf, hcr'⟩ := isLineEnd_eq_false.1 (h b List.mem_cons_self)
    have hrest : Inline text := fun b' hb' => h b' (List.mem_cons_of_mem _ hb')
    have hbyte : s.byte ignoreNul b = ({ s with line := s.line ++ [b] }, []) := by
      simp [State.byte, hlf, hcr', hcr]
    simp only [feed, hbyte]
    rw [ih (s := { s with line := s.line ++ [b] }) hcr hrest]
    simp

private theorem feed_lf (hcr : s.afterCr = false) : feed ignoreNul s [lf] = s.endLine ignoreNul := by
  simp [feed, State.byte, hcr]

private theorem feed_line (hline : s.line = []) (hcr : s.afterCr = false) {text : Bytes} (h : Inline text) :
    feed ignoreNul s (text ++ [lf]) = { s with line := text }.endLine ignoreNul := by
  rw [feed_append, feed_text hcr h, hline, List.nil_append]
  rw [feed_lf (s := { s with line := text }) hcr]
  simp

private theorem inline_append {bs bs' : Bytes} : Inline (bs ++ bs') ↔ Inline bs ∧ Inline bs' := by
  simp only [Inline, List.mem_append]
  exact ⟨fun h => ⟨fun b hb => h b (.inl hb), fun b hb => h b (.inr hb)⟩, fun h b hb => hb.elim (h.1 b) (h.2 b)⟩

private theorem splitField_append {name value : Bytes} (h : colon ∉ name) :
    splitField (name ++ colon :: space :: value) = (name, value) := by
  have hname : ∀ b ∈ name, decide (b ≠ colon) = true := fun b hb => decide_eq_true fun heq => h (heq ▸ hb)
  unfold splitField
  rw [List.takeWhile_append_of_pos hname, List.dropWhile_append_of_pos hname]
  simp [dropSpace]

theorem feed_field (hline : s.line = []) (hcr : s.afterCr = false) {name value : Bytes} (hne : name ≠ [])
    (hcolon : colon ∉ name) (hname : Inline name) (hvalue : Inline value) :
    feed ignoreNul s (name ++ [colon, space] ++ value ++ [lf]) = (s.field ignoreNul name value, []) := by
  have htext : Inline (name ++ [colon, space] ++ value) :=
    inline_append.2 ⟨inline_append.2 ⟨hname, by decide⟩, hvalue⟩
  rw [feed_line hline hcr htext]
  have hhead : (name ++ [colon, space] ++ value).head? ≠ some colon := by
    obtain ⟨b, name, rfl⟩ := List.exists_cons_of_ne_nil hne
    intro hb
    exact hcolon (Option.some.inj hb ▸ List.mem_cons_self)
  have hsplit : splitField (name ++ [colon, space] ++ value) = (name, value) := by
    rw [List.append_assoc]
    exact splitField_append hcolon
  have hs : { s with line := [] } = s := by rw [← hline]
  simp only [State.endLine, hsplit, hs, if_neg hhead]
  rw [if_neg (by simp)]

theorem feed_comment (hline : s.line = []) (hcr : s.afterCr = false) {text : Bytes} (h : Inline text) :
    feed ignoreNul s (colon :: text ++ [lf]) = (s, []) := by
  have htext : Inline (colon :: text) := List.forall_mem_cons.2 ⟨by decide, h⟩
  rw [feed_line hline hcr htext]
  have hs : { s with line := [] } = s := by rw [← hline]
  simp [State.endLine, hs]

theorem feed_blank (hline : s.line = []) (hcr : s.afterCr = false) : feed ignoreNul s [lf] = s.dispatch := by
  have hs : { s with line := [] } = s := by rw [← hline]
  simp [feed_lf hcr, State.endLine, hline, hs]

/-! ### What is dispatched -/

theorem Inline.of_sublist {bs bs' : Bytes} (h : Inline bs) (hsub : bs'.Sublist bs) : Inline bs' :=
  fun b hb => h b (hsub.subset hb)

private theorem dropSpace_sublist (bs : Bytes) : (dropSpace bs).Sublist bs := by
  cases bs with
  | nil => exact List.Sublist.refl _
  | cons b bs =>
    simp only [dropSpace]
    split_ifs
    · exact List.sublist_cons_self b bs
    · exact List.Sublist.refl _

private theorem splitField_sublist (line : Bytes) :
    (splitField line).1.Sublist line ∧ (splitField line).2.Sublist line :=
  ⟨List.takeWhile_sublist _, ((dropSpace_sublist _).trans (List.drop_sublist 1 _)).trans (List.dropWhile_sublist _)⟩

structure WellFormed (ignoreNul : Bool) (p : Dispatched) : Prop where
  event : Inline p.event
  id : Inline p.lastEventId
  data : cr ∉ p.data
  nul : ignoreNul = true → 0 ∉ p.lastEventId

structure State.WellFormed (ignoreNul : Bool) (s : State) : Prop where
  line : Inline s.line
  data : ∀ v ∈ s.data, Inline v
  event : Inline s.event
  id : Inline s.id
  nul : ignoreNul = true → 0 ∉ s.id

private theorem cr_not_mem_joinLines {vs : List Bytes} (h : ∀ v ∈ vs, Inline v) : cr ∉ joinLines vs := by
  induction vs with
  | nil => simp [joinLines]
  | cons v vs ih =>
    have hv : cr ∉ v := fun hmem => absurd (h v List.mem_cons_self cr hmem) (by decide)
    have hvs := ih fun w hw => h w (List.mem_cons_of_mem _ hw)
    cases vs with
    | nil => exact hv
    | cons w vs =>
      rw [joinLines, List.mem_append, List.mem_cons]
      · rintro (hmem | heq | hmem)
        · exact hv hmem
        · exact absurd heq (by decide)
        · exact hvs hmem
      · simp

theorem wellFormed_initial : State.initial.WellFormed ignoreNul where
  line := by intro b hb; cases hb
  data := by intro v hv; cases hv
  event := by intro b hb; cases hb
  id := by intro b hb; cases hb
  nul := by intro _ h; cases h

theorem State.WellFormed.field (h : s.WellFormed ignoreNul) {name value : Bytes} (hv : Inline value) :
    (s.field ignoreNul name value).WellFormed ignoreNul := by
  unfold State.field
  split_ifs with hdata hevent hid hnul
  · refine ⟨h.line, ?_, h.event, h.id, h.nul⟩
    intro v hmem
    rcases List.mem_append.1 hmem with hmem | hmem
    · exact h.data v hmem
    · rw [List.mem_singleton.1 hmem]
      exact hv
  · exact ⟨h.line, h.data, hv, h.id, h.nul⟩
  · exact h
  · exact ⟨h.line, h.data, h.event, hv, fun hi hmem => hnul ⟨hi, hmem⟩⟩
  · exact h

theorem State.WellFormed.endLine (h : s.WellFormed ignoreNul) : (s.endLine ignoreNul).1.WellFormed ignoreNul ∧
    ∀ p ∈ (s.endLine ignoreNul).2, EventSource.WellFormed ignoreNul p := by
  have hnil : Inline [] := by intro b hb; cases hb
  have h' : { s with line := [] }.WellFormed ignoreNul := ⟨hnil, h.data, h.event, h.id, h.nul⟩
  unfold State.endLine
  simp only
  split_ifs with hblank hcomment
  · refine ⟨⟨hnil, ?_, hnil, h.id, h.nul⟩, ?_⟩
    · intro v hv; cases hv
    · intro p hp
      unfold State.dispatch at hp
      simp only at hp
      split_ifs at hp
      · cases hp
      · rw [List.mem_singleton.1 hp]
        exact ⟨h.event, h.id, cr_not_mem_joinLines h.data, h.nul⟩
  · exact ⟨h', fun p hp => by cases hp⟩
  · exact ⟨h'.field (h.line.of_sublist (splitField_sublist s.line).2), fun p hp => by cases hp⟩

theorem State.WellFormed.byte (h : s.WellFormed ignoreNul) (b : UInt8) : (s.byte ignoreNul b).1.WellFormed ignoreNul ∧
    ∀ p ∈ (s.byte ignoreNul b).2, EventSource.WellFormed ignoreNul p := by
  unfold State.byte
  split_ifs with hlf hafter hcr
  · exact ⟨⟨h.line, h.data, h.event, h.id, h.nul⟩, fun p hp => by cases hp⟩
  · exact h.endLine
  · have hs : { s with afterCr := false }.WellFormed ignoreNul := ⟨h.line, h.data, h.event, h.id, h.nul⟩
    obtain ⟨hend, hout⟩ := hs.endLine
    exact ⟨⟨hend.line, hend.data, hend.event, hend.id, hend.nul⟩, hout⟩
  · refine ⟨⟨?_, h.data, h.event, h.id, h.nul⟩, fun p hp => by cases hp⟩
    intro b' hb'
    rcases List.mem_append.1 hb' with hb' | hb'
    · exact h.line b' hb'
    · rw [List.mem_singleton.1 hb']
      exact isLineEnd_eq_false.2 ⟨hlf, hcr⟩

/-- The names and ids that are dispatched have no end of a line, and the data has no CR. -/
theorem wellFormed_feed (h : s.WellFormed ignoreNul) (bs : Bytes) :
    ∀ p ∈ (feed ignoreNul s bs).2, WellFormed ignoreNul p := by
  induction bs generalizing s with
  | nil => intro p hp; cases hp
  | cons b bs ih =>
    obtain ⟨hs, hout⟩ := h.byte b
    intro p hp
    rcases List.mem_append.1 hp with hp | hp
    · exact hout p hp
    · exact ih hs p hp

/-! ### How long the first event is -/

/-- The length of the data so far, with the end of each line. -/
def weight (vs : List Bytes) : Nat := vs.foldr (fun v n => v.length + 1 + n) 0

private theorem weight_append (vs : List Bytes) (v : Bytes) : weight (vs ++ [v]) = weight vs + (v.length + 1) := by
  induction vs with
  | nil => simp [weight]
  | cons w vs ih =>
    simp only [weight, List.cons_append, List.foldr_cons] at ih ⊢
    omega

private theorem length_joinLines {vs : List Bytes} (h : vs ≠ []) : (joinLines vs).length + 1 = weight vs := by
  induction vs with
  | nil => exact absurd rfl h
  | cons v vs ih =>
    cases vs with
    | nil => simp [joinLines, weight]
    | cons w vs =>
      have hrest := ih (by simp)
      rw [joinLines]
      · simp only [weight, List.foldr_cons, List.length_append, List.length_cons] at hrest ⊢
        omega
      · simp

/-- A value is shorter than its line by at least the name. -/
private theorem length_splitField (line : Bytes) :
    (splitField line).1.length + (splitField line).2.length ≤ line.length := by
  have hsplit := congrArg List.length (List.takeWhile_append_dropWhile (p := (· ≠ colon)) (l := line))
  have hspace := (dropSpace_sublist ((line.dropWhile (· ≠ colon)).drop 1)).length_le
  rw [List.length_append] at hsplit
  rw [List.length_drop] at hspace
  simp only [splitField]
  omega

variable (ignoreNul s) in
private theorem weight_field (name value : Bytes) :
    weight (s.field ignoreNul name value).data ≤ weight s.data + (name.length + value.length) := by
  unfold State.field
  split_ifs with hdata hevent hid hnul
  · rw [weight_append, hdata]
    have : dataName.length = 4 := rfl
    omega
  all_goals exact Nat.le_add_right _ _

/-- The end of a line that is not blank. -/
structure Collects (s s' : State) : Prop where
  line : s'.line = []
  afterCr : s'.afterCr = s.afterCr
  data : s.data ≠ [] → s'.data ≠ []
  weight_le : weight s'.data ≤ weight s.data + s.line.length

variable (ignoreNul) in
private theorem endLine_collects (hne : s.line ≠ []) :
    ∃ s', s.endLine ignoreNul = (s', []) ∧ Collects s s' := by
  unfold State.endLine
  simp only [if_neg hne]
  split_ifs with hcomment
  · exact ⟨_, rfl, rfl, rfl, id, Nat.le_add_right _ _⟩
  · refine ⟨_, rfl, ?_, ?_, ?_, ?_⟩
    · unfold State.field
      split_ifs <;> rfl
    · unfold State.field
      split_ifs <;> rfl
    · unfold State.field
      split_ifs <;> simp
    · have hle := weight_field ignoreNul { s with line := [] } (splitField s.line).1 (splitField s.line).2
      exact Nat.le_trans hle (Nat.add_le_add_left (length_splitField s.line) _)

variable (ignoreNul) in
private theorem endLine_dispatches (hline : s.line = []) (hdata : s.data ≠ []) :
    ∃ s' p, s.endLine ignoreNul = (s', [p]) ∧ p.data.length + 1 = weight s.data := by
  unfold State.endLine
  simp only [if_pos hline, State.dispatch, if_neg hdata]
  exact ⟨_, _, rfl, length_joinLines hdata⟩

variable (ignoreNul) in
/-- Some bytes without a CR and a blank line: the first event that they dispatch has no more data than was collected
before and than the bytes are long. -/
theorem first_length_le {bs : Bytes} (hcr : s.afterCr = false) (hbs : cr ∉ bs) (hdata : s.data ≠ []) :
    ∃ p ps, (feed ignoreNul s (bs ++ [lf, lf])).2 = p :: ps ∧
      p.data.length + 1 ≤ weight s.data + s.line.length + bs.length := by
  induction bs generalizing s with
  | nil =>
    have hbyte : s.byte ignoreNul lf = s.endLine ignoreNul := by simp [State.byte, hcr]
    simp only [List.nil_append, feed, hbyte]
    by_cases hline : s.line = []
    · obtain ⟨s', p, hend, hlength⟩ := endLine_dispatches ignoreNul hline hdata
      rw [hend]
      exact ⟨p, _, rfl, by omega⟩
    · obtain ⟨s', hend, hs'⟩ := endLine_collects ignoreNul hline
      obtain ⟨s'', p, hend', hlength⟩ := endLine_dispatches ignoreNul hs'.line (hs'.data hdata)
      have hbyte' : s'.byte ignoreNul lf = s'.endLine ignoreNul := by simp [State.byte, hs'.afterCr, hcr]
      rw [hend]
      simp only [hbyte', hend']
      have hle := hs'.weight_le
      exact ⟨p, _, rfl, by omega⟩
  | cons b bs ih =>
    have hb : b ≠ cr := fun heq => hbs (heq ▸ List.mem_cons_self)
    have hrest : cr ∉ bs := fun hmem => hbs (List.mem_cons_of_mem _ hmem)
    simp only [List.cons_append, feed, List.length_cons]
    by_cases hlf : b = lf
    · have hbyte : s.byte ignoreNul b = s.endLine ignoreNul := by simp [State.byte, hlf, hcr]
      rw [hbyte]
      by_cases hline : s.line = []
      · obtain ⟨s', p, hend, hlength⟩ := endLine_dispatches ignoreNul hline hdata
        rw [hend]
        exact ⟨p, _, rfl, by omega⟩
      · obtain ⟨s', hend, hs'⟩ := endLine_collects ignoreNul hline
        obtain ⟨p, ps, hout, hlength⟩ := ih (hs'.afterCr.trans hcr) hrest (hs'.data hdata)
        have hle := hs'.weight_le
        rw [hs'.line, List.length_nil] at hlength
        rw [hend]
        exact ⟨p, ps, hout, by omega⟩
    · have hbyte : s.byte ignoreNul b = ({ s with line := s.line ++ [b], afterCr := false }, []) := by
        simp [State.byte, hlf, hb]
      obtain ⟨p, ps, hout, hlength⟩ := ih (s := { s with line := s.line ++ [b], afterCr := false }) rfl hrest hdata
      rw [hbyte]
      refine ⟨p, ps, hout, ?_⟩
      simp only [List.length_append, List.length_singleton] at hlength
      omega

end

end EventSource
