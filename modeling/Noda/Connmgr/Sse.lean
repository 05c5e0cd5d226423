import Noda.Connmgr.Pattern
import Noda.Lib.EventSource
import Noda.Lib.Scanf
import Mathlib.Data.List.Forall2

/-!
# The stream of an SSE connection

What the stream writer of an SSE connection writes: an opening, and then the events and heartbeats in the order in which
they come.  `writeSSEEvent` writes the three texts of an event as they are, each on a line of its own, so the end of a
line inside of one of them is read as the end of its line.

`stream_roundTrips_iff`: a reader of the stream gets the events that were sent exactly if none of their texts has such a
byte.
-/

namespace Noda.Connmgr

open EventSource

structure SseEvent where
  event : GoString
  data : GoString
  id : GoString
  deriving DecidableEq, Repr

def writeSSEEvent (evt : SseEvent) : GoString :=
  (if evt.id ≠ [] then ascii "id: " ++ evt.id ++ [lf] else []) ++
  (if evt.event ≠ [] then ascii "event: " ++ evt.event ++ [lf] else []) ++
  (ascii "data: " ++ evt.data ++ [lf, lf])

/-- The first bytes of the stream; `retry` is the configured time. -/
def opening (retry : Int) : GoString :=
  if 0 < retry then ascii "retry: " ++ (Scanf.print retry.toNat).map Char.toUInt8 ++ [lf, lf]
  else ascii ": connected" ++ [lf, lf]

/-- What comes to the stream writer: a call of `SendSSE` with a text as its data, or a tick. -/
inductive Item where
  | sendSSE (event data id : GoString)
  | heartbeat
  deriving DecidableEq, Repr

/-- The name of a channel that is not a pattern; `SendSSE` refuses the others. -/
structure LiteralChannel where
  name : GoString
  literal : 0x2A ∉ name

section

variable {V E : Type} (marshal : V → Except E GoString) (channel : LiteralChannel)

/-- The bytes for an item; an event comes through `SendSSE`. -/
def Item.write : Item → GoString
  | .sendSSE event data id =>
    match Request.prepare marshal (.sendSSE channel.name event (.string data) id) with
    | .ok (.sse event data id) => writeSSEEvent ⟨event, data, id⟩
    | _ => []
  | .heartbeat => ascii ": heartbeat" ++ [lf, lf]

/-- All bytes of the stream. -/
def stream (retry : Int) (items : List Item) : GoString := opening retry ++ items.flatMap (Item.write marshal channel)

def sent (items : List Item) : List SseEvent :=
  items.filterMap fun
    | .sendSSE event data id => some ⟨event, data, id⟩
    | .heartbeat => none

/-- The event is read as it was sent. -/
structure Same (e : SseEvent) (p : Dispatched) : Prop where
  data : p.data = e.data
  event : p.event = e.event
  id : e.id ≠ [] → p.lastEventId = e.id

/-- A reader gets the events that were sent, in order. -/
def RoundTrips (ignoreNul : Bool) (retry : Int) (items : List Item) : Prop :=
  List.Forall₂ Same (sent items) (parse ignoreNul (stream marshal channel retry items))

/-- The texts of the event have no end of a line (and the id no NUL, where a reader ignores such an id). -/
structure Clean (ignoreNul : Bool) (e : SseEvent) : Prop where
  event : Inline e.event
  data : Inline e.data
  id : Inline e.id
  nul : ignoreNul = true → 0 ∉ e.id

private theorem write_sendSSE (event data id : GoString) :
    Item.write marshal channel (.sendSSE event data id) = writeSSEEvent ⟨event, data, id⟩ := by
  simp [Item.write, Request.prepare, marshalData, channel.literal]

end

/-! ### Between two events -/

/-- Nothing is collected. -/
structure Ready (s : EventSource.State) : Prop where
  line : s.line = []
  afterCr : s.afterCr = false
  data : s.data = []
  event : s.event = []

section

variable {ignoreNul : Bool} {s : EventSource.State}

theorem Ready.blank (h : Ready s) : feed ignoreNul s [lf] = (s, []) := by
  rw [feed_blank h.line h.afterCr, EventSource.State.dispatch, if_pos h.data, ← h.data, ← h.event]

/-- A comment and a blank line. -/
theorem Ready.comment (h : Ready s) (text : GoString) (htext : Inline text) :
    feed ignoreNul s (EventSource.colon :: text ++ [lf, lf]) = (s, []) := by
  have hsplit : EventSource.colon :: text ++ [lf, lf] = EventSource.colon :: text ++ [lf] ++ [lf] := by simp
  rw [hsplit, feed_append, feed_comment h.line h.afterCr htext, h.blank]
  rfl

theorem Ready.heartbeat (h : Ready s) : feed ignoreNul s (ascii ": heartbeat" ++ [lf, lf]) = (s, []) :=
  h.comment (ascii " heartbeat") (by decide)

private theorem inline_print (n : Nat) : Inline ((Scanf.print n).map Char.toUInt8) := by
  intro b hb
  obtain ⟨c, hc, rfl⟩ := List.mem_map.1 hb
  have hdigit := Scanf.isDigit_of_mem_print hc
  simp only [Char.isDigit, Bool.and_eq_true, decide_eq_true_eq] at hdigit
  obtain ⟨hlow, hhigh⟩ := hdigit
  have hlow : 48 ≤ c.val.toNat := UInt32.le_iff_toNat_le.1 hlow
  have hhigh : c.val.toNat ≤ 57 := UInt32.le_iff_toNat_le.1 hhigh
  have hbyte : c.toUInt8.toNat = c.val.toNat := by
    show c.val.toUInt8.toNat = _
    rw [UInt32.toNat_toUInt8]
    omega
  refine isLineEnd_eq_false.2 ⟨fun heq => ?_, fun heq => ?_⟩
  · have hten : c.toUInt8.toNat = 10 := by rw [heq]; rfl
    omega
  · have hthirteen : c.toUInt8.toNat = 13 := by rw [heq]; rfl
    omega

theorem Ready.opening (h : Ready s) (retry : Int) : feed ignoreNul s (opening retry) = (s, []) := by
  unfold Connmgr.opening
  split_ifs
  · have hsplit : ascii "retry: " ++ (Scanf.print retry.toNat).map Char.toUInt8 ++ [lf, lf] =
        ascii "retry" ++ [EventSource.colon, space] ++ (Scanf.print retry.toNat).map Char.toUInt8 ++ [lf] ++ [lf] := by
      have hname : ascii "retry: " = ascii "retry" ++ [EventSource.colon, space] := by decide
      rw [hname]
      simp
    rw [hsplit, feed_append,
      feed_field h.line h.afterCr (by decide) (by decide) (by decide) (inline_print retry.toNat)]
    have hfield : s.field ignoreNul (ascii "retry") ((Scanf.print retry.toNat).map Char.toUInt8) = s := by
      unfold EventSource.State.field
      rw [if_neg (by decide), if_neg (by decide), if_neg (by decide)]
    rw [hfield, h.blank]
    rfl
  · exact h.comment (ascii " connected") (by decide)

/-! ### One event -/

/-- The id that a reader has after the event. -/
def newId (s : EventSource.State) (e : SseEvent) : GoString := if e.id = [] then s.id else e.id

/-- What the lines before `data` do. -/
theorem Ready.header (h : Ready s) {e : SseEvent} (hevent : Inline e.event) (hid : Inline e.id)
    (hnul : ignoreNul = true → 0 ∉ e.id) :
    feed ignoreNul s ((if e.id ≠ [] then ascii "id: " ++ e.id ++ [lf] else []) ++
      (if e.event ≠ [] then ascii "event: " ++ e.event ++ [lf] else [])) =
    ({ s with id := newId s e, event := e.event }, []) := by
  have hidLine : feed ignoreNul s (if e.id ≠ [] then ascii "id: " ++ e.id ++ [lf] else []) =
      ({ s with id := newId s e }, []) := by
    unfold newId
    by_cases hempty : e.id = []
    · simp [hempty, feed]
    · have hname : ascii "id: " = idName ++ [EventSource.colon, space] := by decide
      rw [if_pos hempty, if_neg hempty, hname,
        feed_field h.line h.afterCr (by decide) (by decide) (by decide) hid, EventSource.State.field,
        if_neg (by decide), if_neg (by decide), if_pos rfl, if_neg fun hn => hnul hn.1 hn.2]
  have heventLine : ∀ s' : EventSource.State, s'.line = [] → s'.afterCr = false → s'.event = [] →
      feed ignoreNul s' (if e.event ≠ [] then ascii "event: " ++ e.event ++ [lf] else []) =
        ({ s' with event := e.event }, []) := by
    intro s' hline hcr hs'
    by_cases hempty : e.event = []
    · rw [if_neg (not_not.2 hempty), hempty]
      show (s', []) = _
      rw [← hs']
    · have hname : ascii "event: " = eventName ++ [EventSource.colon, space] := by decide
      rw [if_pos hempty, hname, feed_field hline hcr (by decide) (by decide) (by decide) hevent,
        EventSource.State.field, if_neg (by decide), if_pos rfl]
  rw [feed_append, hidLine]
  rw [heventLine { s with id := newId s e } h.line h.afterCr h.event]
  rfl

private theorem feed_data (hline : s.line = []) (hcr : s.afterCr = false) {text : GoString} (h : Inline text) :
    feed ignoreNul s (ascii "data: " ++ text ++ [lf]) = ({ s with data := s.data ++ [text] }, []) := by
  have hname : ascii "data: " = dataName ++ [EventSource.colon, space] := by decide
  rw [hname, feed_field hline hcr (by decide) (by decide) (by decide) h, EventSource.State.field, if_pos rfl]

/-- An event whose texts have no end of a line is read as it is. -/
theorem Ready.clean (h : Ready s) {e : SseEvent} (hclean : Clean ignoreNul e) :
    feed ignoreNul s (writeSSEEvent e) = ({ s with id := newId s e }, [⟨e.event, e.data, newId s e⟩]) := by
  have hdata : ascii "data: " ++ e.data ++ [lf, lf] = ascii "data: " ++ e.data ++ [lf] ++ [lf] := by simp
  unfold writeSSEEvent
  rw [hdata, feed_append, h.header hclean.event hclean.id hclean.nul, feed_append]
  rw [feed_data (s := { s with id := newId s e, event := e.event }) h.line h.afterCr hclean.data]
  rw [feed_blank (s := { s with id := newId s e, event := e.event, data := s.data ++ [e.data] }) h.line h.afterCr]
  simp [EventSource.State.dispatch, h.data, h.event, joinLines]

theorem Ready.broken (h : Ready s) {e : SseEvent} (hevent : Inline e.event) (hid : Inline e.id)
    (hnul : ignoreNul = true → 0 ∉ e.id) (hcr : cr ∉ e.data) (hlf : lf ∈ e.data) :
    ∃ p ps, (feed ignoreNul s (writeSSEEvent e)).2 = p :: ps ∧ p.data.length < e.data.length := by
  obtain ⟨first, rest, hdata, hfirst⟩ := List.eq_append_cons_of_mem hlf
  have hinline : Inline first := by
    intro b hb
    refine isLineEnd_eq_false.2 ⟨fun heq => hfirst (heq ▸ hb), fun heq => hcr ?_⟩
    rw [hdata, ← heq]
    exact List.mem_append_left _ hb
  have hrest : cr ∉ rest := fun hmem => hcr (by rw [hdata]; exact List.mem_append_right _ (List.mem_cons_of_mem _ hmem))
  have hsplit : ascii "data: " ++ e.data ++ [lf, lf] = ascii "data: " ++ first ++ [lf] ++ (rest ++ [lf, lf]) := by
    rw [hdata]
    simp
  unfold writeSSEEvent
  rw [hsplit, feed_append, h.header hevent hid hnul, feed_append]
  rw [feed_data (s := { s with id := newId s e, event := e.event }) h.line h.afterCr hinline]
  obtain ⟨p, ps, hout, hlength⟩ := first_length_le ignoreNul
    (s := { s with id := newId s e, event := e.event, data := s.data ++ [first] }) h.afterCr hrest (by simp)
  refine ⟨p, ps, hout, ?_⟩
  simp only [h.data, h.line, weight, List.nil_append, List.foldr_cons, List.foldr_nil, List.length_nil] at hlength
  rw [hdata, List.length_append, List.length_cons]
  omega

/-! ### The stream -/

variable {V E : Type} {marshal : V → Except E GoString} {channel : LiteralChannel}

/-- Whatever was sent: what is read back cannot have an end of a line in a name or an id, or a CR in its data. -/
private theorem clean_but_lf {es : List SseEvent} {ps : List Dispatched} (h : List.Forall₂ Same es ps)
    (hps : ∀ p ∈ ps, WellFormed ignoreNul p) :
    ∀ e ∈ es, Inline e.event ∧ Inline e.id ∧ (ignoreNul = true → 0 ∉ e.id) ∧ cr ∉ e.data := by
  induction h with
  | nil => intro e he; cases he
  | @cons e p es ps hsame _ ih =>
    intro e' he'
    rcases List.mem_cons.1 he' with rfl | he'
    · have hp := hps p List.mem_cons_self
      refine ⟨hsame.event ▸ hp.event, ?_, ?_, hsame.data ▸ hp.data⟩
      · by_cases hempty : e'.id = []
        · rw [hempty]
          intro b hb
          cases hb
        · exact hsame.id hempty ▸ hp.id
      · intro hi
        by_cases hempty : e'.id = []
        · simp [hempty]
        · exact hsame.id hempty ▸ hp.nul hi
    · exact ih (fun p hp => hps p (List.mem_cons_of_mem _ hp)) e' he'

theorem Ready.items (h : Ready s) {items : List Item} (hclean : ∀ e ∈ sent items, Clean ignoreNul e) :
    List.Forall₂ Same (sent items) (feed ignoreNul s (items.flatMap (Item.write marshal channel))).2 := by
  induction items generalizing s with
  | nil => exact .nil
  | cons item items ih =>
    rw [List.flatMap_cons, feed_append]
    cases item with
    | heartbeat =>
      rw [Item.write, h.heartbeat]
      exact ih h hclean
    | sendSSE event data id =>
      obtain ⟨hhead, hrest⟩ := List.forall_mem_cons.1 (show ∀ e ∈ ⟨event, data, id⟩ :: sent items, _ from hclean)
      rw [write_sendSSE, h.clean hhead]
      refine .cons ⟨rfl, rfl, fun hne => if_neg hne⟩ (ih ⟨h.line, h.afterCr, h.data, h.event⟩ hrest)

theorem Ready.clean_of_items (h : Ready s) {items : List Item}
    (hitems : List.Forall₂ Same (sent items) (feed ignoreNul s (items.flatMap (Item.write marshal channel))).2)
    (halmost : ∀ e ∈ sent items, Inline e.event ∧ Inline e.id ∧ (ignoreNul = true → 0 ∉ e.id) ∧ cr ∉ e.data) :
    ∀ e ∈ sent items, Clean ignoreNul e := by
  induction items generalizing s with
  | nil => intro e he; cases he
  | cons item items ih =>
    rw [List.flatMap_cons, feed_append] at hitems
    cases item with
    | heartbeat =>
      rw [Item.write, h.heartbeat] at hitems
      exact ih h hitems halmost
    | sendSSE event data id =>
      obtain ⟨⟨hevent, hid, hnul, hcr⟩, hrest⟩ :=
        List.forall_mem_cons.1 (show ∀ e ∈ ⟨event, data, id⟩ :: sent items, _ from halmost)
      rw [write_sendSSE] at hitems
      by_cases hlf : lf ∈ data
      · -- the first event that is read has less data than the one that was sent
        obtain ⟨p, ps, hout, hlength⟩ := h.broken hevent hid hnul hcr hlf
        rw [hout] at hitems
        cases hitems with
        | cons hsame _ => exact absurd (congrArg List.length hsame.data) (Nat.ne_of_lt hlength)
      · have hdata : Inline data := fun b hb =>
          isLineEnd_eq_false.2 ⟨fun heq => hlf (heq ▸ hb), fun heq => hcr (heq ▸ hb)⟩
        have hclean : Clean ignoreNul ⟨event, data, id⟩ := ⟨hevent, hdata, hid, hnul⟩
        have hnext : Ready { s with id := newId s ⟨event, data, id⟩ } := ⟨h.line, h.afterCr, h.data, h.event⟩
        rw [h.clean hclean] at hitems
        cases hitems with
        | cons _ hitems => exact List.forall_mem_cons.2 ⟨hclean, ih hnext hitems hrest⟩

end

/-- A reader of the stream gets the events that were sent exactly if none of their texts has the end of a line in it. -/
theorem stream_roundTrips_iff {V E : Type} (marshal : V → Except E GoString) (channel : LiteralChannel)
    (ignoreNul : Bool) (retry : Int) (items : List Item) :
    RoundTrips marshal channel ignoreNul retry items ↔ ∀ e ∈ sent items, Clean ignoreNul e := by
  have hready : Ready EventSource.State.initial := ⟨rfl, rfl, rfl, rfl⟩
  have hparse : parse ignoreNul (stream marshal channel retry items) =
      (feed ignoreNul .initial (items.flatMap (Item.write marshal channel))).2 := by
    rw [parse, stream, feed_append, hready.opening]
    rfl
  unfold RoundTrips
  rw [hparse]
  constructor
  · intro h
    exact hready.clean_of_items h (clean_but_lf h (wellFormed_feed wellFormed_initial _))
  · exact hready.items

/-- A message of two lines is read as one event with the first line. -/
theorem not_roundTrips_two_lines : ¬ RoundTrips (E := Unit) (fun _ : Unit => .ok []) ⟨ascii "room", by decide⟩ true 0
    [.sendSSE [] (ascii "one\ntwo") []] := by
  intro h
  have hread : parse true (stream (E := Unit) (fun _ : Unit => .ok []) ⟨ascii "room", by decide⟩ 0
      [.sendSSE [] (ascii "one\ntwo") []]) = [⟨[], ascii "one", []⟩] := by decide
  unfold RoundTrips at h
  rw [hread] at h
  cases h with
  | cons hsame _ => exact absurd hsame.data (by decide)

end Noda.Connmgr
