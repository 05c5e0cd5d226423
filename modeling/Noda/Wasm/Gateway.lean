import Noda.Lib.GoMap
import Noda.Lib.Pool
import Noda.Lib.Transition

/-!
# Outbound connections of a Wasm module

`Connect`, `CloseConn`, `CloseAll`, the read loops and the reconnect loops of a gateway, with any number of each side by
side.  Each block under a lock and each dial is one step; what a dial yields, when the other side disconnects, how
often a loop tries to reconnect and the order in which `CloseAll` visits the connections are free.

A socket is known by who holds it: a `Connect` that has dialed it, the entry whose `ws` it is, a reconnect loop that has
dialed it, or nobody, once it is overwritten while it is open.

`Connect` looks for the id, releases the lock, dials and inserts later.  Two calls with one id both find the id free,
and the socket of the first one is left open without an entry (`gateway_not_owned`).  In every run in which a
`Connect` is alone with its id between the two blocks, every open socket is owned (`gateway_owned`).
-/

namespace Noda.Wasm.Gateway

open Transition

/-- Where a `Connect` is between its two blocks, and at its end; `isOpen` says that the other side has not
disconnected. -/
inductive Phase where
  | start
  | dialing
  | dialed (isOpen : Bool)
  | returned
  deriving DecidableEq, Repr

/-- `stamp` is a ghost: the number of calls of `Connect` that had found their id free before. -/
structure Connect where
  id : String
  stamp : Nat
  phase : Phase
  deriving DecidableEq, Repr

/-- Where the reconnect loop of an entry is; `left` is the number of attempts that are left.  `first` and `second` are
the two calls of `isClosing`. -/
inductive Loop where
  | none
  | begun
  | first (left : Nat)
  | second (left : Nat)
  | dialing (left : Nat)
  | dialed (left : Nat) (isOpen : Bool)
  | installed
  deriving DecidableEq, Repr

/-- A `gatewayConn`: `isOpen` belongs to its `ws`, `stopped` says that its `stopCh` is closed, `once` that its
`closeOnce` has run, and `reader` that its read loop is running. -/
structure Entry where
  id : String
  stamp : Nat
  isOpen : Bool
  closed : Bool
  stopped : Bool
  once : Bool
  reader : Bool
  loop : Loop
  deriving DecidableEq, Repr

/-- Where a `CloseConn` or a `CloseAll` is: it has taken the entries in `rest` out of the map and is yet to stop them;
it has stopped `current` and is yet to close its socket. -/
inductive CloserPhase where
  | start
  | working (rest : List Nat) (current : Option Nat)
  | returned
  deriving DecidableEq, Repr

/-- A `CloseConn` of an id, or a `CloseAll`; `before` is a ghost: the calls of `Connect` with a smaller stamp began
before it. -/
structure Closer where
  scope : Option String
  before : Nat
  phase : CloserPhase
  deriving DecidableEq, Repr

/-- `lost` are the ids of the open sockets that nobody holds, and `closedTwice` says that a stop channel was closed
twice. -/
structure State where
  conns : GoMap Nat
  entries : List Entry
  connects : List Connect
  closers : List Closer
  clock : Nat
  lost : List String
  closedTwice : Bool

def initial : State := ⟨∅, [], [], [], 0, [], false⟩

/-- Who holds a socket. -/
inductive Holder where
  | connect (k : Nat)
  | entry (e : Nat)
  | loop (e : Nat)
  | lost (n : Nat)
  deriving DecidableEq, Repr

/-- `ok` says that a dial succeeds; `attempts` is the number of attempts of a reconnect loop, `0` if it is not enabled;
`choice` is the entry that a `CloseAll` visits next. -/
inductive Action where
  | callConnect (id : String)
  | connect (k : Nat) (ok : Bool)
  | callClose (scope : Option String)
  | close (c : Nat) (choice : Nat)
  | readerExit (e : Nat)
  | loop (e : Nat) (attempts : Nat) (ok : Bool)
  | disconnect (h : Holder)
  deriving DecidableEq, Repr

/-- The entry that a `Connect` registers. -/
def Connect.newEntry (connect : Connect) (isOpen : Bool) : Entry :=
  ⟨connect.id, connect.stamp, isOpen, false, false, false, true, .none⟩

def connectStep (s : State) (k : Nat) (connect : Connect) (ok : Bool) : Option State :=
  match connect.phase with
  | .start =>
    if connect.id ∈ s.conns then some { s with connects := s.connects.set k { connect with phase := .returned } }
    else some { s with
      connects := s.connects.set k { connect with phase := .dialing, stamp := s.clock }
      clock := s.clock + 1 }
  | .dialing =>
    some { s with connects := s.connects.set k { connect with phase := if ok then .dialed true else .returned } }
  | .dialed isOpen =>
    some { s with
      connects := s.connects.set k { connect with phase := .returned }
      entries := s.entries ++ [connect.newEntry isOpen]
      conns := s.conns.insert connect.id s.entries.length }
  | .returned => none

/-- The entries that a closer takes out of the map, and the map without them. -/
def take (conns : GoMap Nat) : Option String → List Nat × GoMap Nat
  | some id => ((conns.lookup id).toList, conns.erase id)
  | none => (conns.entries.map (·.2), ∅)

def State.setEntry (s : State) (e : Nat) (entry : Entry) : State := { s with entries := s.entries.set e entry }

def State.setCloser (s : State) (c : Nat) (closer : Closer) (phase : CloserPhase) : State :=
  { s with closers := s.closers.set c { closer with phase := phase } }

def closeStep (s : State) (c : Nat) (closer : Closer) (choice : Nat) : Option State :=
  match closer.phase with
  | .start =>
    some { s with
      conns := (take s.conns closer.scope).2
      closers := s.closers.set c ⟨closer.scope, s.clock, .working (take s.conns closer.scope).1 none⟩ }
  | .working rest none =>
    if rest = [] then some (s.setCloser c closer .returned)
    else
      (rest[choice]?).bind fun e => (s.entries[e]?).map fun entry =>
        { (s.setCloser c closer (.working (rest.eraseIdx choice) (some e))).setEntry e
            { entry with closed := true, stopped := true } with
          closedTwice := s.closedTwice || entry.stopped }
  | .working rest (some e) =>
    (s.entries[e]?).map fun entry =>
      (s.setCloser c closer (.working rest none)).setEntry e
        { entry with once := true, isOpen := entry.isOpen && entry.once }
  | .returned => none

/-- The end of a read loop, when its socket is gone.  That a read fails while the other side is still connected is not
modelled. -/
def readerExit (s : State) (e : Nat) (entry : Entry) : Option State :=
  if entry.reader ∧ ¬entry.isOpen then
    some (s.setEntry e { entry with
      reader := false
      closed := true
      loop := if entry.closed then entry.loop else .begun })
  else none

def loopStep (s : State) (e : Nat) (entry : Entry) (attempts : Nat) (ok : Bool) : Option State :=
  match entry.loop with
  | .none => none
  | .begun => some (s.setEntry e { entry with loop := if attempts = 0 then .none else .first attempts })
  | .first left => some (s.setEntry e { entry with loop := if entry.stopped then .none else .second left })
  | .second left => some (s.setEntry e { entry with loop := if entry.stopped then .none else .dialing left })
  | .dialing left =>
    some (s.setEntry e { entry with
      loop := if ok then .dialed left true else if left ≤ 1 then .none else .first (left - 1) })
  | .dialed _ isOpen =>
    if entry.stopped then some (s.setEntry e { entry with loop := .none })
    else some { s.setEntry e { entry with loop := .installed, isOpen := isOpen, closed := false, once := false } with
      lost := if entry.isOpen then entry.id :: s.lost else s.lost }
  | .installed => some (s.setEntry e { entry with loop := .none, reader := true })

/-- The other side disconnects. -/
def disconnect (s : State) : Holder → Option State
  | .connect k =>
    (s.connects[k]?).bind fun connect =>
      if connect.phase = .dialed true then
        some { s with connects := s.connects.set k { connect with phase := .dialed false } }
      else none
  | .entry e => (s.entries[e]?).map fun entry => s.setEntry e { entry with isOpen := false }
  | .loop e =>
    (s.entries[e]?).bind fun entry =>
      match entry.loop with
      | .dialed left _ => some (s.setEntry e { entry with loop := .dialed left false })
      | _ => none
  | .lost n => some { s with lost := s.lost.eraseIdx n }

def step (s : State) : Action → Option State
  | .callConnect id => some { s with connects := s.connects ++ [⟨id, 0, .start⟩] }
  | .connect k ok => (s.connects[k]?).bind fun connect => connectStep s k connect ok
  | .callClose scope => some { s with closers := s.closers ++ [⟨scope, 0, .start⟩] }
  | .close c choice => (s.closers[c]?).bind fun closer => closeStep s c closer choice
  | .readerExit e => (s.entries[e]?).bind fun entry => readerExit s e entry
  | .loop e attempts ok => (s.entries[e]?).bind fun entry => loopStep s e entry attempts ok
  | .disconnect h => disconnect s h

/-! ### Ownership -/

/-- The `Connect` is between its two blocks. -/
def Connect.inProgress (connect : Connect) : Bool :=
  match connect.phase with
  | .dialing | .dialed _ => true
  | _ => false

/-- The entries that a closer has taken and has not yet closed. -/
def Closer.entries (closer : Closer) : List Nat :=
  match closer.phase with
  | .working rest current => rest ++ current.toList
  | _ => []

def Closer.covers (closer : Closer) (id : String) : Prop := ∀ id' ∈ closer.scope, id = id'

instance (closer : Closer) (id : String) : Decidable (closer.covers id) :=
  inferInstanceAs (Decidable (∀ id' ∈ closer.scope, id = id'))

def State.taken (s : State) : List Nat := s.closers.flatMap Closer.entries

/-- The entry is the one of some id in the map. -/
def State.registered (s : State) (e : Nat) : Prop := ∃ id, s.conns.lookup id = some e

def Loop.pastCheck : Loop → Bool
  | .dialing _ | .dialed _ _ => true
  | _ => false

/-- The id and the stamp of the socket of a holder, if it has one that is open. -/
def State.openAt (s : State) : Holder → Option (String × Nat)
  | .connect k =>
    (s.connects[k]?).bind fun connect =>
      if connect.phase = .dialed true then some (connect.id, connect.stamp) else none
  | .entry e => (s.entries[e]?).bind fun entry => if entry.isOpen then some (entry.id, entry.stamp) else none
  | .loop e =>
    (s.entries[e]?).bind fun entry =>
      match entry.loop with
      | .dialed _ true => some (entry.id, entry.stamp)
      | _ => none
  | .lost n => (s.lost[n]?).map (·, 0)

/-- The stop channel of the entry is closed. -/
def State.stopped (s : State) (e : Nat) : Prop := ∃ entry, s.entries[e]? = some entry ∧ entry.stopped = true

/-- The socket is held by an operation that is going to close it. -/
def State.closing (s : State) : Holder → Prop
  | .entry e => e ∈ s.taken
  | .loop e => e ∈ s.taken ∨ s.stopped e
  | .connect _ | .lost _ => False

/-- What is expected of the sockets. -/
structure Owned (s : State) : Prop where
  /-- At most one socket is open for an id. -/
  single : ∀ h h' id stamp stamp', s.openAt h = some (id, stamp) → s.openAt h' = some (id, stamp') → h = h'
  /-- An open socket belongs to the entry under its id, to a `Connect` that is about to register it, to a reconnect loop
  of the entry under its id, or to an operation that is going to close it. -/
  owned : ∀ h id stamp, s.openAt h = some (id, stamp) →
    (∃ k, h = .connect k) ∨ (∃ e, (h = .entry e ∨ h = .loop e) ∧ s.conns.lookup id = some e) ∨ s.closing h
  /-- When a closer has returned, a socket of a `Connect` or of an entry from before it is open only if an operation is
  going to close it. -/
  gone : ∀ closer ∈ s.closers, closer.phase = .returned → ∀ h id stamp, s.openAt h = some (id, stamp) →
    closer.covers id → stamp < closer.before → s.closing h
  /-- No stop channel is closed twice. -/
  channels : s.closedTwice = false

/-- Nobody else works on the id: no other `Connect` is between its blocks, no closer has an entry of the id that is
not yet closed, and no reconnect loop of one dials. -/
def State.free (s : State) (id : String) : Prop :=
  (∀ connect ∈ s.connects, connect.id = id → connect.inProgress = false) ∧
    (∀ e ∈ s.taken, ∀ entry ∈ s.entries[e]?, entry.id ≠ id) ∧
    ∀ entry ∈ s.entries, entry.id = id → entry.loop.pastCheck = false

instance (s : State) (id : String) : Decidable (s.free id) := inferInstanceAs (Decidable (_ ∧ _ ∧ _))

/-- A `Connect` that finds its id free is alone with it, and a closer begins when no `Connect` that it covers is
between its blocks. -/
def alone (s : State) : Action → Prop
  | .connect k _ => ∀ connect ∈ s.connects[k]?, connect.phase = .start → connect.id ∉ s.conns → s.free connect.id
  | .close c _ => ∀ closer ∈ s.closers[c]?, closer.phase = .start →
      ∀ connect ∈ s.connects, closer.covers connect.id → connect.inProgress = false
  | _ => True

instance decidableAlone : ∀ (s : State) (a : Action), Decidable (alone s a)
  | s, .connect k _ => inferInstanceAs (Decidable (∀ connect ∈ s.connects[k]?, connect.phase = .start →
      connect.id ∉ s.conns → s.free connect.id))
  | s, .close c _ => inferInstanceAs (Decidable (∀ closer ∈ s.closers[c]?, closer.phase = .start →
      ∀ connect ∈ s.connects, closer.covers connect.id → connect.inProgress = false))
  | _, .callConnect _ | _, .callClose _ | _, .readerExit _ | _, .loop _ _ _ | _, .disconnect _ => .isTrue trivial

/-! ### The invariant -/

/-- The reconnect loop has not yet replaced the socket. -/
def Loop.active : Loop → Bool
  | .none | .installed => false
  | _ => true

/-- The entry may have an open socket. -/
def State.live (s : State) (e : Nat) (entry : Entry) : Prop :=
  s.registered e ∨ e ∈ s.taken ∨ entry.loop.pastCheck = true

/-- What a closer knows: what it covers and what is in the map, or on its way there, is younger. -/
structure CloserOk (s : State) (closer : Closer) : Prop where
  clock : closer.before ≤ s.clock
  connects : ∀ connect ∈ s.connects, connect.inProgress = true → closer.covers connect.id →
    closer.before ≤ connect.stamp
  registered : ∀ id e entry, s.conns.lookup id = some e → s.entries[e]? = some entry → closer.covers id →
    closer.before ≤ entry.stamp

/-- What is known of an entry, by where it is. -/
structure EntryOk (s : State) (e : Nat) (entry : Entry) : Prop where
  /-- Under its own id, and neither stopped nor closed. -/
  registered : ∀ id, s.conns.lookup id = some e → entry.id = id ∧ entry.stopped = false ∧ entry.once = false
  rest : ∀ closer ∈ s.closers, ∀ rest current, closer.phase = .working rest current → e ∈ rest →
    entry.stopped = false ∧ entry.once = false
  current : ∀ closer ∈ s.closers, ∀ rest, closer.phase = .working rest (some e) →
    entry.stopped = true ∧ entry.once = false
  /-- An entry that was closed stays so. -/
  finished : ¬s.registered e → e ∉ s.taken → entry.stopped = true ∧ entry.isOpen = false
  dead : entry.loop.active = true → entry.isOpen = false
  reader : entry.reader = true → entry.loop = .none

structure Inv (s : State) : Prop where
  nodup : (s.conns.entries.map (·.2) ++ s.taken).Nodup
  valid : ∀ e ∈ s.conns.entries.map (·.2) ++ s.taken, e < s.entries.length
  entries : ∀ (e : Nat) entry, s.entries[e]? = some entry → EntryOk s e entry
  entriesApart : ∀ (e e' : Nat) entry entry', s.entries[e]? = some entry → s.entries[e']? = some entry' →
    s.live e entry → s.live e' entry' → entry.id = entry'.id → e = e'
  connectsApart : ∀ (k k' : Nat) connect connect', s.connects[k]? = some connect → s.connects[k']? = some connect' →
    connect.inProgress = true → connect'.inProgress = true → connect.id = connect'.id → k = k'
  apart : ∀ connect ∈ s.connects, ∀ (e : Nat) entry, s.entries[e]? = some entry → connect.inProgress = true →
    s.live e entry → connect.id ≠ entry.id
  closers : ∀ closer ∈ s.closers, closer.phase ≠ .start → CloserOk s closer
  lost : s.lost = []
  channels : s.closedTwice = false

variable {s s' : State} {e k c : Nat} {entry entry' : Entry} {connect connect' : Connect} {closer : Closer}

theorem Loop.active_of_pastCheck {loop : Loop} (h : loop.pastCheck = true) : loop.active = true := by
  cases loop <;> first | rfl | exact nomatch h

/-- Who has an open socket: a `Connect` between its blocks, or an entry that is live. -/
theorem Inv.openAt_cases (h : Inv s) {holder : Holder} {id : String} {stamp : Nat}
    (hopen : s.openAt holder = some (id, stamp)) :
    (∃ k connect, holder = .connect k ∧ s.connects[k]? = some connect ∧ connect.inProgress = true ∧ connect.id = id ∧
      connect.stamp = stamp) ∨
    ∃ e entry, s.entries[e]? = some entry ∧ s.live e entry ∧ entry.id = id ∧ entry.stamp = stamp ∧
      (holder = .entry e ∧ entry.isOpen = true ∨ holder = .loop e ∧ entry.loop.pastCheck = true) := by
  cases holder with
  | connect k =>
    obtain ⟨connect, hk, hif⟩ := Option.bind_eq_some_iff.1 hopen
    simp only [Option.ite_none_right_eq_some, Option.some.injEq, Prod.mk.injEq] at hif
    obtain ⟨hphase, rfl, rfl⟩ := hif
    exact .inl ⟨k, connect, rfl, hk, by simp [Connect.inProgress, hphase], rfl, rfl⟩
  | entry e =>
    obtain ⟨entry, he, hif⟩ := Option.bind_eq_some_iff.1 hopen
    simp only [Option.ite_none_right_eq_some, Option.some.injEq, Prod.mk.injEq] at hif
    obtain ⟨hisOpen, rfl, rfl⟩ := hif
    have hlive : s.live e entry := by
      by_contra hlive
      simp only [State.live, not_or] at hlive
      have hfinished := (h.entries e entry he).finished hlive.1 hlive.2.1
      exact nomatch hisOpen.symm.trans hfinished.2
    exact .inr ⟨e, entry, he, hlive, rfl, rfl, .inl ⟨rfl, hisOpen⟩⟩
  | loop e =>
    obtain ⟨entry, he, hmatch⟩ := Option.bind_eq_some_iff.1 hopen
    split at hmatch
    · rename_i left hloop
      obtain ⟨rfl, rfl⟩ := Prod.mk.inj (Option.some.inj hmatch)
      have hpast : entry.loop.pastCheck = true := by rw [hloop]; rfl
      exact .inr ⟨e, entry, he, .inr (.inr hpast), rfl, rfl, .inr ⟨rfl, hpast⟩⟩
    · exact nomatch hmatch
  | lost n =>
    rw [State.openAt, h.lost] at hopen
    exact nomatch hopen

theorem Inv.owned (h : Inv s) {holder : Holder} {id : String} {stamp : Nat}
    (hopen : s.openAt holder = some (id, stamp)) :
    (∃ k, holder = .connect k) ∨ (∃ e, (holder = .entry e ∨ holder = .loop e) ∧ s.conns.lookup id = some e) ∨
      s.closing holder := by
  rcases h.openAt_cases hopen with ⟨k, -, rfl, -⟩ | ⟨e, entry, he, hlive, rfl, -, hholder⟩
  · exact .inl ⟨k, rfl⟩
  · have hok := h.entries e entry he
    by_cases hregistered : s.registered e
    · obtain ⟨id, hid⟩ := hregistered
      obtain ⟨rfl, -⟩ := hok.registered id hid
      exact .inr (.inl ⟨e, hholder.imp And.left And.left, hid⟩)
    · refine .inr (.inr ?_)
      by_cases htaken : e ∈ s.taken
      · rcases hholder with ⟨rfl, -⟩ | ⟨rfl, -⟩
        · exact htaken
        · exact .inl htaken
      · obtain ⟨hstopped, hclosed⟩ := hok.finished hregistered htaken
        rcases hholder with ⟨-, hisOpen⟩ | ⟨rfl, -⟩
        · exact nomatch hisOpen.symm.trans hclosed
        · exact .inr ⟨entry, he, hstopped⟩

theorem Inv.owned_all (h : Inv s) : Owned s where
  single holder holder' id stamp stamp' hopen hopen' := by
    rcases h.openAt_cases hopen with ⟨k, connect, rfl, hk, hprogress, rfl, -⟩ | ⟨e, entry, he, hlive, rfl, -, hholder⟩
    · rcases h.openAt_cases hopen' with ⟨k', connect', rfl, hk', hprogress', hid, -⟩ |
        ⟨e', entry', he', hlive', hid, -, -⟩
      · rw [h.connectsApart k k' connect connect' hk hk' hprogress hprogress' hid.symm]
      · exact absurd hid.symm (h.apart connect (List.mem_of_getElem? hk) e' entry' he' hprogress hlive')
    · rcases h.openAt_cases hopen' with ⟨k', connect', rfl, hk', hprogress', hid, -⟩ |
        ⟨e', entry', he', hlive', hid, -, hholder'⟩
      · exact absurd hid (h.apart connect' (List.mem_of_getElem? hk') e entry he hprogress' hlive)
      · obtain rfl := h.entriesApart e e' entry entry' he he' hlive hlive' hid.symm
        obtain rfl := Option.some.inj (he.symm.trans he')
        -- the loop of an entry dials only when the socket of the entry is gone
        have hdead : entry.loop.pastCheck = true → entry.isOpen = false :=
          fun hpast => (h.entries e entry he).dead (Loop.active_of_pastCheck hpast)
        rcases hholder with ⟨rfl, hisOpen⟩ | ⟨rfl, hpast⟩
        · rcases hholder' with ⟨rfl, -⟩ | ⟨-, hpast⟩
          · rfl
          · exact nomatch hisOpen.symm.trans (hdead hpast)
        · rcases hholder' with ⟨-, hisOpen⟩ | ⟨rfl, -⟩
          · exact nomatch hisOpen.symm.trans (hdead hpast)
          · rfl
  owned _ _ _ hopen := h.owned hopen
  gone closer hcloser hreturned holder id stamp hopen hcovers hlt := by
    have hok := h.closers closer hcloser (by rw [hreturned]; decide)
    rcases h.owned hopen with ⟨k, rfl⟩ | ⟨e, hholder, hid⟩ | hclosing
    · rcases h.openAt_cases hopen with ⟨_, connect, _, hk, hprogress, rfl, rfl⟩ | ⟨_, _, -, -, -, -, hholder⟩
      · exact absurd (hok.connects connect (List.mem_of_getElem? hk) hprogress hcovers) (Nat.not_le.2 hlt)
      · rcases hholder with ⟨heq, -⟩ | ⟨heq, -⟩
        · exact nomatch heq
        · exact nomatch heq
    · rcases h.openAt_cases hopen with ⟨_, -, rfl, -⟩ | ⟨e', entry, he, -, -, rfl, hholder'⟩
      · rcases hholder with heq | heq
        · exact nomatch heq
        · exact nomatch heq
      · obtain rfl : e = e' := by
          rcases hholder with rfl | rfl
          · rcases hholder' with ⟨heq, -⟩ | ⟨heq, -⟩
            · exact Holder.entry.inj heq
            · exact nomatch heq
          · rcases hholder' with ⟨heq, -⟩ | ⟨heq, -⟩
            · exact nomatch heq
            · exact Holder.loop.inj heq
        exact absurd (hok.registered id e entry hid he hcovers) (Nat.not_le.2 hlt)
    · exact hclosing
  channels := h.channels

theorem State.live.of_taken (hlive : s'.live e entry) (hconns : s'.conns = s.conns)
    (htaken : e ∈ s'.taken → e ∈ s.taken) : s.live e entry := by
  rcases hlive with ⟨id, hid⟩ | hmem | hpast
  · exact .inl ⟨id, hconns ▸ hid⟩
  · exact .inr (.inl (htaken hmem))
  · exact .inr (.inr hpast)

/-! ### Steps of an entry -/

/-- A step that changes entries and moves them on within the closers; no entry becomes live. -/
private theorem inv_of_entries (h : Inv s) (hconns : s'.conns = s.conns) (hconnects : s'.connects = s.connects)
    (hclock : s'.clock = s.clock) (hlost : s'.lost = s.lost) (hchannels : s'.closedTwice = false)
    (hclosers : ∀ closer' ∈ s'.closers, closer'.phase ≠ .start →
      ∃ closer ∈ s.closers, closer.phase ≠ .start ∧ closer'.scope = closer.scope ∧ closer'.before = closer.before)
    (hnodup : (s.conns.entries.map (·.2) ++ s'.taken).Nodup) (htaken : ∀ i ∈ s'.taken, i ∈ s.taken)
    (hlength : s'.entries.length = s.entries.length)
    (hentries : ∀ (i : Nat) d', s'.entries[i]? = some d' → EntryOk s' i d')
    (hold : ∀ (i : Nat) d', s'.entries[i]? = some d' →
      ∃ d, s.entries[i]? = some d ∧ d'.id = d.id ∧ d'.stamp = d.stamp ∧ (s'.live i d' → s.live i d)) : Inv s' := by
  refine ⟨?_, ?_, hentries, ?_, ?_, ?_, ?_, hlost.trans h.lost, hchannels⟩
  · rw [hconns]
    exact hnodup
  · intro i hi
    rw [hlength]
    rw [hconns] at hi
    exact h.valid i (List.mem_append.2 ((List.mem_append.1 hi).imp_right (htaken i)))
  · intro i j d d' hd hd' hlive hlive' heq
    obtain ⟨d₀, hd₀, hid₀, -, hlive₀⟩ := hold i d hd
    obtain ⟨d₁, hd₁, hid₁, -, hlive₁⟩ := hold j d' hd'
    rw [hid₀, hid₁] at heq
    exact h.entriesApart i j d₀ d₁ hd₀ hd₁ (hlive₀ hlive) (hlive₁ hlive') heq
  · rw [hconnects]
    exact h.connectsApart
  · rw [hconnects]
    intro connect hconnect i d hd hprogress hlive
    obtain ⟨d₀, hd₀, hid₀, -, hlive₀⟩ := hold i d hd
    rw [hid₀]
    exact h.apart connect hconnect i d₀ hd₀ hprogress (hlive₀ hlive)
  · intro closer' hcloser' hphase'
    obtain ⟨closer, hcloser, hphase, hscope, hbefore⟩ := hclosers closer' hcloser' hphase'
    have hc := h.closers closer hcloser hphase
    have hcovers : ∀ id, closer'.covers id → closer.covers id := fun id => by
      rw [Closer.covers, Closer.covers, hscope]
      exact fun hid => hid
    refine ⟨?_, ?_, ?_⟩
    · rw [hbefore, hclock]
      exact hc.clock
    · rw [hbefore, hconnects]
      exact fun connect hconnect hprogress hid => hc.connects connect hconnect hprogress (hcovers _ hid)
    · intro id i d hlookup hd hid
      obtain ⟨d₀, hd₀, -, hstamp₀, -⟩ := hold i d hd
      rw [hconns] at hlookup
      rw [hbefore, hstamp₀]
      exact hc.registered id i d₀ hlookup hd₀ (hcovers _ hid)

/-- An entry is replaced: only an entry that is not stopped gets a socket or begins to dial. -/
private theorem inv_setEntry (h : Inv s) (he : s.entries[e]? = some entry) (hid : entry'.id = entry.id)
    (hstamp : entry'.stamp = entry.stamp) (hstopped : entry'.stopped = entry.stopped) (honce : entry'.once = entry.once)
    (hpast : entry'.loop.pastCheck = true → entry.loop.pastCheck = true ∨ entry.stopped = false)
    (hopen : entry'.isOpen = true → entry.isOpen = true ∨ entry.stopped = false)
    (hdead : entry'.loop.active = true → entry'.isOpen = false) (hreader : entry'.reader = true → entry'.loop = .none) :
    Inv (s.setEntry e entry') := by
  have hok := h.entries e entry he
  have hold : ∀ (i : Nat) d', (s.entries.set e entry')[i]? = some d' →
      ∃ d, s.entries[i]? = some d ∧ d'.id = d.id ∧ d'.stamp = d.stamp ∧ ((s.setEntry e entry').live i d' →
        s.live i d) := by
    intro i d' hd'
    rcases Pool.getElem?_set_some hd' with ⟨rfl, rfl⟩ | ⟨-, hd⟩
    · refine ⟨entry, he, hid, hstamp, ?_⟩
      rintro (hregistered | htaken | hpast')
      · exact .inl hregistered
      · exact .inr (.inl htaken)
      · rcases hpast hpast' with hpast | hrunning
        · exact .inr (.inr hpast)
        · by_contra hlive
          simp only [State.live, not_or] at hlive
          exact nomatch hrunning.symm.trans (hok.finished hlive.1 hlive.2.1).1
    · exact ⟨d', hd, rfl, rfl, id⟩
  refine inv_of_entries h rfl rfl rfl rfl h.channels (fun closer hcloser hphase => ⟨closer, hcloser, hphase, rfl, rfl⟩)
    h.nodup (fun _ hi => hi) List.length_set ?_ hold
  intro i d' hd'
  rcases Pool.getElem?_set_some hd' with ⟨rfl, rfl⟩ | ⟨-, hd⟩
  · refine ⟨?_, ?_, ?_, ?_, hdead, hreader⟩
    · rw [hid, hstopped, honce]
      exact hok.registered
    · rw [hstopped, honce]
      exact hok.rest
    · rw [hstopped, honce]
      exact hok.current
    · intro hregistered htaken
      obtain ⟨hstop, hclosed⟩ := hok.finished hregistered htaken
      refine ⟨hstopped.trans hstop, Bool.eq_false_iff.2 fun hopen' => ?_⟩
      rcases hopen hopen' with hopen | hrunning
      · exact nomatch hopen.symm.trans hclosed
      · exact nomatch hrunning.symm.trans hstop
  · have hd := h.entries i d' hd
    exact ⟨hd.registered, hd.rest, hd.current, hd.finished, hd.dead, hd.reader⟩

private theorem mem_taken : e ∈ s.taken ↔ ∃ closer ∈ s.closers, ∃ rest current, closer.phase = .working rest current ∧
    (e ∈ rest ∨ current = some e) := by
  rw [State.taken, List.mem_flatMap]
  refine exists_congr fun closer => and_congr_right fun _ => ?_
  unfold Closer.entries
  cases closer.phase with
  | start => simp
  | returned => simp
  | working rest current =>
    cases current with
    | none => simp
    | some e' => simp [eq_comm]

theorem EntryOk.once_of_running (h : EntryOk s e entry) (hrunning : entry.stopped = false) : entry.once = false := by
  by_cases hregistered : s.registered e
  · obtain ⟨id, hid⟩ := hregistered
    exact (h.registered id hid).2.2
  · by_cases htaken : e ∈ s.taken
    · obtain ⟨closer, hcloser, rest, current, hphase, he | rfl⟩ := mem_taken.1 htaken
      · exact (h.rest closer hcloser rest current hphase he).2
      · exact (h.current closer hcloser rest hphase).2
    · exact nomatch hrunning.symm.trans (h.finished hregistered htaken).1

private theorem inv_readerExit (h : Inv s) (he : s.entries[e]? = some entry) (hstep : readerExit s e entry = some s') :
    Inv s' := by
  simp only [readerExit, Option.ite_none_right_eq_some, Option.some.injEq] at hstep
  obtain ⟨⟨hreader, hclosed⟩, rfl⟩ := hstep
  have hloop := (h.entries e entry he).reader hreader
  refine inv_setEntry h he rfl rfl rfl rfl ?_ (fun hopen => .inl hopen) (fun _ => Bool.eq_false_iff.2 hclosed)
    (fun hr => nomatch hr)
  intro hpast
  split_ifs at hpast
  · exact .inl hpast
  · exact nomatch hpast

private theorem inv_loop {attempts : Nat} {ok : Bool} (h : Inv s) (he : s.entries[e]? = some entry)
    (hstep : loopStep s e entry attempts ok = some s') : Inv s' := by
  have hok := h.entries e entry he
  -- while the loop is there, the read loop is not
  have hreader : entry.loop ≠ .none → entry.reader = false :=
    fun hne => Bool.eq_false_iff.2 fun hr => hne (hok.reader hr)
  cases hloop : entry.loop with
  | none =>
    rw [loopStep, hloop] at hstep
    exact nomatch hstep
  | begun =>
    rw [loopStep, hloop] at hstep
    obtain rfl := Option.some.inj hstep
    refine inv_setEntry h he rfl rfl rfl rfl ?_ (fun hopen => .inl hopen) (fun _ => hok.dead (by rw [hloop]; rfl))
      (fun hr => nomatch hr.symm.trans (hreader (by rw [hloop]; decide)))
    intro hpast
    split_ifs at hpast
    · exact nomatch hpast
    · exact nomatch hpast
  | first left =>
    rw [loopStep, hloop] at hstep
    obtain rfl := Option.some.inj hstep
    refine inv_setEntry h he rfl rfl rfl rfl ?_ (fun hopen => .inl hopen) (fun _ => hok.dead (by rw [hloop]; rfl))
      (fun hr => nomatch hr.symm.trans (hreader (by rw [hloop]; exact fun heq => nomatch heq)))
    intro hpast
    split_ifs at hpast
    · exact nomatch hpast
    · exact nomatch hpast
  | second left =>
    rw [loopStep, hloop] at hstep
    obtain rfl := Option.some.inj hstep
    refine inv_setEntry h he rfl rfl rfl rfl ?_ (fun hopen => .inl hopen) (fun _ => hok.dead (by rw [hloop]; rfl))
      (fun hr => nomatch hr.symm.trans (hreader (by rw [hloop]; exact fun heq => nomatch heq)))
    intro hpast
    split_ifs at hpast with hstopped
    · exact nomatch hpast
    · exact .inr (Bool.eq_false_iff.2 hstopped)
  | dialing left =>
    rw [loopStep, hloop] at hstep
    obtain rfl := Option.some.inj hstep
    exact inv_setEntry h he rfl rfl rfl rfl (fun _ => .inl (by rw [hloop]; rfl)) (fun hopen => .inl hopen)
      (fun _ => hok.dead (by rw [hloop]; rfl))
      (fun hr => nomatch hr.symm.trans (hreader (by rw [hloop]; exact fun heq => nomatch heq)))
  | dialed left isOpen =>
    have hdead : entry.isOpen = false := hok.dead (by rw [hloop]; rfl)
    have hnoreader : entry.reader = false := hreader (by rw [hloop]; exact fun heq => nomatch heq)
    rw [loopStep, hloop] at hstep
    simp only [hdead, Bool.false_eq_true, if_false] at hstep
    split_ifs at hstep with hstopped
    · obtain rfl := Option.some.inj hstep
      exact inv_setEntry h he rfl rfl rfl rfl (fun hpast => nomatch hpast) (fun hopen => nomatch hopen)
        (fun hactive => nomatch hactive) (fun _ => rfl)
    · obtain rfl := Option.some.inj hstep
      have hrunning : entry.stopped = false := Bool.eq_false_iff.2 hstopped
      exact inv_setEntry h he rfl rfl rfl (hok.once_of_running hrunning).symm (fun hpast => nomatch hpast)
        (fun _ => .inr hrunning) (fun hactive => nomatch hactive) (fun hr => nomatch hr.symm.trans hnoreader)
  | installed =>
    rw [loopStep, hloop] at hstep
    obtain rfl := Option.some.inj hstep
    exact inv_setEntry h he rfl rfl rfl rfl (fun hpast => nomatch hpast) (fun hopen => .inl hopen)
      (fun hactive => nomatch hactive) (fun _ => rfl)

/-! ### Steps of a `Connect` -/

/-- The map, the entries and the closers stay as they are. -/
theorem EntryOk.frame (h : EntryOk s e entry) (hconns : s'.conns = s.conns) (hclosers : s'.closers = s.closers) :
    EntryOk s' e entry := by
  have hregistered : s'.registered e ↔ s.registered e := by rw [State.registered, State.registered, hconns]
  have htaken : s'.taken = s.taken := by rw [State.taken, State.taken, hclosers]
  refine ⟨?_, ?_, ?_, ?_, h.dead, h.reader⟩
  · rw [hconns]
    exact h.registered
  · rw [hclosers]
    exact h.rest
  · rw [hclosers]
    exact h.current
  · rw [hregistered, htaken]
    exact h.finished

private theorem inv_setConnect (h : Inv s) (hk : s.connects[k]? = some connect) (hid : connect'.id = connect.id)
    (hprogress : connect'.inProgress = true → connect.inProgress = true ∧ connect'.stamp = connect.stamp) :
    Inv { s with connects := s.connects.set k connect' } := by
  have hold : ∀ (i : Nat) d', (s.connects.set k connect')[i]? = some d' → d'.inProgress = true →
      ∃ d, s.connects[i]? = some d ∧ d.inProgress = true ∧ d'.id = d.id ∧ d'.stamp = d.stamp := by
    intro i d' hd' hd
    rcases Pool.getElem?_set_some hd' with ⟨rfl, rfl⟩ | ⟨-, hd'⟩
    · exact ⟨connect, hk, (hprogress hd).1, hid, (hprogress hd).2⟩
    · exact ⟨d', hd', hd, rfl, rfl⟩
  refine ⟨h.nodup, h.valid, fun i d hd => (h.entries i d hd).frame rfl rfl, h.entriesApart, ?_, ?_, ?_, h.lost,
    h.channels⟩
  · intro i j d d' hd hd' hd₁ hd₂ heq
    obtain ⟨d₀, hd₀, hprogress₀, hid₀, -⟩ := hold i d hd hd₁
    obtain ⟨d₁, hd₁, hprogress₁, hid₁, -⟩ := hold j d' hd' hd₂
    rw [hid₀, hid₁] at heq
    exact h.connectsApart i j d₀ d₁ hd₀ hd₁ hprogress₀ hprogress₁ heq
  · intro d hd i entry hentry hd' hlive
    obtain ⟨j, hj⟩ := List.mem_iff_getElem?.1 hd
    obtain ⟨d₀, hd₀, hprogress₀, hid₀, -⟩ := hold j d hj hd'
    rw [hid₀]
    exact h.apart d₀ (List.mem_of_getElem? hd₀) i entry hentry hprogress₀ hlive
  · intro closer hcloser hphase
    have hc := h.closers closer hcloser hphase
    refine ⟨hc.clock, ?_, hc.registered⟩
    intro d hd hd' hcovers
    obtain ⟨j, hj⟩ := List.mem_iff_getElem?.1 hd
    obtain ⟨d₀, hd₀, hprogress₀, hid₀, hstamp₀⟩ := hold j d hj hd'
    rw [hid₀] at hcovers
    rw [hstamp₀]
    exact hc.connects d₀ (List.mem_of_getElem? hd₀) hprogress₀ hcovers

private theorem inv_dial (h : Inv s) (hk : s.connects[k]? = some connect) (hnew : connect.id ∉ s.conns)
    (hfree : s.free connect.id) :
    Inv { s with
      connects := s.connects.set k { connect with phase := .dialing, stamp := s.clock }
      clock := s.clock + 1 } := by
  obtain ⟨hconnects, htaken, hloops⟩ := hfree
  have hlive : ∀ (i : Nat) entry, s.entries[i]? = some entry → s.live i entry → connect.id ≠ entry.id := by
    rintro i entry hentry (⟨id, hlookup⟩ | hmem | hpast) heq
    · obtain ⟨rfl, -⟩ := (h.entries i entry hentry).registered id hlookup
      exact hnew (heq ▸ AList.mem_of_lookup hlookup)
    · exact htaken i hmem entry hentry heq.symm
    · exact nomatch hpast.symm.trans (hloops entry (List.mem_of_getElem? hentry) heq.symm)
  refine ⟨h.nodup, h.valid, fun i d hd => (h.entries i d hd).frame rfl rfl, h.entriesApart, ?_, ?_, ?_, h.lost,
    h.channels⟩
  · intro i j d d' hd hd' hd₁ hd₂ heq
    rcases Pool.getElem?_set_some hd with ⟨rfl, rfl⟩ | ⟨-, hd₀⟩
    · rcases Pool.getElem?_set_some hd' with ⟨rfl, rfl⟩ | ⟨-, hd₀'⟩
      · rfl
      · exact nomatch hd₂.symm.trans (hconnects d' (List.mem_of_getElem? hd₀') heq.symm)
    · rcases Pool.getElem?_set_some hd' with ⟨rfl, rfl⟩ | ⟨-, hd₀'⟩
      · exact nomatch hd₁.symm.trans (hconnects d (List.mem_of_getElem? hd₀) heq)
      · exact h.connectsApart i j d d' hd₀ hd₀' hd₁ hd₂ heq
  · intro d hd i entry hentry hd' hlive'
    rcases List.mem_or_eq_of_mem_set hd with hd | rfl
    · exact h.apart d hd i entry hentry hd' hlive'
    · exact hlive i entry hentry hlive'
  · intro closer hcloser hphase
    have hc := h.closers closer hcloser hphase
    refine ⟨Nat.le_succ_of_le hc.clock, ?_, hc.registered⟩
    intro d hd hd' hcovers
    rcases List.mem_or_eq_of_mem_set hd with hd | rfl
    · exact hc.connects d hd hd' hcovers
    · exact hc.clock

private theorem mem_values : e ∈ s.conns.entries.map (·.2) ↔ s.registered e := by
  rw [List.mem_map]
  constructor
  · rintro ⟨⟨id, i⟩, hentry, rfl⟩
    exact ⟨id, AList.mem_lookup_iff.2 hentry⟩
  · rintro ⟨id, hid⟩
    exact ⟨⟨id, e⟩, AList.mem_lookup_iff.1 hid, rfl⟩

theorem Inv.lt_of_registered (h : Inv s) (hregistered : s.registered e) : e < s.entries.length :=
  h.valid e (List.mem_append_left _ (mem_values.2 hregistered))

theorem Inv.lt_of_taken (h : Inv s) (htaken : e ∈ s.taken) : e < s.entries.length :=
  h.valid e (List.mem_append_right _ htaken)

theorem Inv.id_notMem (h : Inv s) (hconnect : connect ∈ s.connects) (hprogress : connect.inProgress = true) :
    connect.id ∉ s.conns := by
  intro hmem
  obtain ⟨e, hlookup⟩ := AList.exists_lookup_of_mem hmem
  have hlt := h.lt_of_registered ⟨_, hlookup⟩
  have hentry := List.getElem?_eq_getElem hlt
  obtain ⟨hid, -⟩ := (h.entries e _ hentry).registered _ hlookup
  exact h.apart connect hconnect e _ hentry hprogress (.inl ⟨_, hlookup⟩) hid.symm

/-- The state after the second block of a `Connect`, which registers a new entry. -/
def State.insertEntry (s : State) (k : Nat) (connect : Connect) (isOpen : Bool) : State :=
  { s with
    connects := s.connects.set k { connect with phase := .returned }
    entries := s.entries ++ [connect.newEntry isOpen]
    conns := s.conns.insert connect.id s.entries.length }

section Insert

variable {isOpen : Bool} {id : String}

private theorem lookup_insertEntry (hid : (s.insertEntry k connect isOpen).conns.lookup id = some e) :
    id = connect.id ∧ e = s.entries.length ∨ s.conns.lookup id = some e := by
  unfold State.insertEntry at hid
  by_cases heq : id = connect.id
  · subst heq
    rw [AList.lookup_insert] at hid
    exact .inl ⟨rfl, (Option.some.inj hid).symm⟩
  · rw [AList.lookup_insert_ne heq] at hid
    exact .inr hid

private theorem registered_insertEntry (hregistered : (s.insertEntry k connect isOpen).registered e) :
    e = s.entries.length ∨ s.registered e := by
  obtain ⟨id, hid⟩ := hregistered
  exact (lookup_insertEntry hid).imp And.right fun hid => ⟨id, hid⟩

private theorem registered_insertEntry_of_notMem (hnew : connect.id ∉ s.conns) (hregistered : s.registered e) :
    (s.insertEntry k connect isOpen).registered e := by
  obtain ⟨id, hid⟩ := hregistered
  have hne : id ≠ connect.id := by
    rintro rfl
    exact hnew (AList.mem_of_lookup hid)
  exact ⟨id, (AList.lookup_insert_ne hne).trans hid⟩

private theorem getElem?_insertEntry (he : (s.insertEntry k connect isOpen).entries[e]? = some entry) :
    s.entries[e]? = some entry ∨ e = s.entries.length ∧ entry = connect.newEntry isOpen :=
  Pool.getElem?_concat_some he

private theorem ne_length_of_getElem? (he : s.entries[e]? = some entry) : e ≠ s.entries.length :=
  Nat.ne_of_lt (List.getElem?_eq_some_iff.1 he).1

private theorem live_insertEntry (he : s.entries[e]? = some entry)
    (hlive : (s.insertEntry k connect isOpen).live e entry) : s.live e entry := by
  rcases hlive with hregistered | htaken | hpast
  · exact .inl ((registered_insertEntry hregistered).resolve_left (ne_length_of_getElem? he))
  · exact .inr (.inl htaken)
  · exact .inr (.inr hpast)

/-- The other calls of `Connect` stay where they are. -/
private theorem inProgress_insertEntry {i : Nat} (hi : (s.insertEntry k connect isOpen).connects[i]? = some connect')
    (hprogress : connect'.inProgress = true) : s.connects[i]? = some connect' ∧ i ≠ k := by
  rcases Pool.getElem?_set_some hi with ⟨-, rfl⟩ | ⟨hne, hi⟩
  · cases hprogress
  · exact ⟨hi, hne⟩

theorem EntryOk.insertEntry (h : EntryOk s e entry) (hnew : connect.id ∉ s.conns) (he : s.entries[e]? = some entry) :
    EntryOk (s.insertEntry k connect isOpen) e entry where
  registered id hid := h.registered id ((lookup_insertEntry hid).resolve_left fun heq => ne_length_of_getElem? he heq.2)
  rest := h.rest
  current := h.current
  finished hregistered := h.finished fun hregistered' =>
    hregistered (registered_insertEntry_of_notMem hnew hregistered')
  dead := h.dead
  reader := h.reader

theorem Inv.entryOk_newEntry (h : Inv s) :
    EntryOk (s.insertEntry k connect isOpen) s.entries.length (connect.newEntry isOpen) := by
  have hnot : s.entries.length ∉ s.taken := fun hmem => Nat.lt_irrefl _ (h.lt_of_taken hmem)
  refine ⟨?_, ?_, ?_, ?_, ?_, fun _ => rfl⟩
  · intro id hid
    rcases lookup_insertEntry hid with ⟨rfl, -⟩ | hid
    · exact ⟨rfl, rfl, rfl⟩
    · exact absurd (h.lt_of_registered ⟨id, hid⟩) (Nat.lt_irrefl _)
  · intro closer hcloser rest current hworking hmem
    exact absurd (mem_taken.2 ⟨closer, hcloser, rest, current, hworking, .inl hmem⟩) hnot
  · intro closer hcloser rest hworking
    exact absurd (mem_taken.2 ⟨closer, hcloser, rest, _, hworking, .inr rfl⟩) hnot
  · intro hregistered _
    exact absurd ⟨connect.id, AList.lookup_insert _⟩ hregistered
  · intro hactive
    cases hactive

theorem CloserOk.insertEntry (hcloser : CloserOk s closer) (h : Inv s) (hconnect : connect ∈ s.connects)
    (hprogress : connect.inProgress = true) : CloserOk (s.insertEntry k connect isOpen) closer := by
  refine ⟨hcloser.clock, ?_, ?_⟩
  · intro d hd hd' hcovers
    obtain ⟨j, hj⟩ := List.mem_iff_getElem?.1 hd
    exact hcloser.connects d (List.mem_of_getElem? (inProgress_insertEntry hj hd').1) hd' hcovers
  · intro id i d hid hd hcovers
    rcases getElem?_insertEntry hd with hd | ⟨rfl, rfl⟩
    · have hold := (lookup_insertEntry hid).resolve_left fun heq => ne_length_of_getElem? hd heq.2
      exact hcloser.registered id i d hold hd hcovers
    · rcases lookup_insertEntry hid with ⟨rfl, -⟩ | hid
      · exact hcloser.connects connect hconnect hprogress hcovers
      · exact absurd (h.lt_of_registered ⟨id, hid⟩) (Nat.lt_irrefl _)

private theorem inv_insertEntry (h : Inv s) (hk : s.connects[k]? = some connect)
    (hphase : connect.phase = .dialed isOpen) :
    Inv (s.insertEntry k connect isOpen) := by
  have hprogress : connect.inProgress = true := by rw [Connect.inProgress, hphase]
  have hconnect := List.mem_of_getElem? hk
  have hnew := h.id_notMem hconnect hprogress
  have hvalues : (s.insertEntry k connect isOpen).conns.entries.map (·.2) =
      s.entries.length :: s.conns.entries.map (·.2) := by
    rw [State.insertEntry, AList.entries_insert_of_notMem hnew, List.map_cons]
  have htaken : (s.insertEntry k connect isOpen).taken = s.taken := rfl
  have hlength : (s.insertEntry k connect isOpen).entries.length = s.entries.length + 1 := List.length_append
  refine ⟨?_, ?_, ?_, ?_, ?_, ?_, ?_, h.lost, h.channels⟩
  · rw [hvalues, htaken, List.cons_append, List.nodup_cons]
    exact ⟨fun hmem => Nat.lt_irrefl _ (h.valid _ hmem), h.nodup⟩
  · intro i hi
    rw [hvalues, htaken, List.cons_append, List.mem_cons] at hi
    rw [hlength]
    rcases hi with rfl | hi
    · exact Nat.lt_succ_self _
    · exact Nat.lt_succ_of_lt (h.valid i hi)
  · intro i d hd
    rcases getElem?_insertEntry hd with hd | ⟨rfl, rfl⟩
    · exact (h.entries i d hd).insertEntry hnew hd
    · exact h.entryOk_newEntry
  · intro i j d d' hd hd' hlive hlive' heq
    rcases getElem?_insertEntry hd with hd | ⟨rfl, rfl⟩
    · rcases getElem?_insertEntry hd' with hd' | ⟨rfl, rfl⟩
      · exact h.entriesApart i j d d' hd hd' (live_insertEntry hd hlive) (live_insertEntry hd' hlive') heq
      · exact absurd heq.symm (h.apart connect hconnect i d hd hprogress (live_insertEntry hd hlive))
    · rcases getElem?_insertEntry hd' with hd' | ⟨rfl, -⟩
      · exact absurd heq (h.apart connect hconnect j d' hd' hprogress (live_insertEntry hd' hlive'))
      · rfl
  · intro i j d d' hd hd' hd₁ hd₂ heq
    exact h.connectsApart i j d d' (inProgress_insertEntry hd hd₁).1 (inProgress_insertEntry hd' hd₂).1 hd₁ hd₂ heq
  · intro d hd i entry he hd' hlive
    obtain ⟨j, hj⟩ := List.mem_iff_getElem?.1 hd
    obtain ⟨hj, hne⟩ := inProgress_insertEntry hj hd'
    rcases getElem?_insertEntry he with he | ⟨rfl, rfl⟩
    · exact h.apart d (List.mem_of_getElem? hj) i entry he hd' (live_insertEntry he hlive)
    · exact fun heq => hne (h.connectsApart j k d connect hj hk hd' hprogress heq)
  · intro closer hcloser hworking
    exact (h.closers closer hcloser hworking).insertEntry h hconnect hprogress

end Insert

private theorem inv_connect {ok : Bool} (h : Inv s) (hk : s.connects[k]? = some connect)
    (halone : connect.phase = .start → connect.id ∉ s.conns → s.free connect.id)
    (hstep : connectStep s k connect ok = some s') : Inv s' := by
  cases hphase : connect.phase with
  | start =>
    simp only [connectStep, hphase] at hstep
    split_ifs at hstep with hmem
    · obtain rfl := Option.some.inj hstep
      exact inv_setConnect h hk rfl fun hprogress => nomatch hprogress
    · obtain rfl := Option.some.inj hstep
      exact inv_dial h hk hmem (halone hphase hmem)
  | dialing =>
    simp only [connectStep, hphase, Option.some.injEq] at hstep
    subst hstep
    exact inv_setConnect h hk rfl fun _ => ⟨by rw [Connect.inProgress, hphase], rfl⟩
  | dialed isOpen =>
    simp only [connectStep, hphase, Option.some.injEq] at hstep
    subst hstep
    exact inv_insertEntry h hk hphase
  | returned =>
    rw [connectStep, hphase] at hstep
    exact nomatch hstep

private theorem inv_disconnect {holder : Holder} (h : Inv s) (hstep : disconnect s holder = some s') : Inv s' := by
  cases holder with
  | connect k =>
    obtain ⟨connect, hk, hif⟩ := Option.bind_eq_some_iff.1 hstep
    simp only [Option.ite_none_right_eq_some, Option.some.injEq] at hif
    obtain ⟨hphase, rfl⟩ := hif
    exact inv_setConnect h hk rfl fun _ => ⟨by rw [Connect.inProgress, hphase], rfl⟩
  | entry e =>
    obtain ⟨entry, he, rfl⟩ := Option.map_eq_some_iff.1 hstep
    exact inv_setEntry h he rfl rfl rfl rfl .inl (fun hopen => nomatch hopen) (fun _ => rfl)
      (h.entries e entry he).reader
  | loop e =>
    obtain ⟨entry, he, hmatch⟩ := Option.bind_eq_some_iff.1 hstep
    split at hmatch
    · rename_i left isOpen hloop
      obtain rfl := Option.some.inj hmatch
      have hok := h.entries e entry he
      refine inv_setEntry h he rfl rfl rfl rfl (fun _ => .inl (by rw [hloop]; rfl)) .inl
        (fun _ => hok.dead (by rw [hloop]; rfl)) fun hreader => ?_
      exact nomatch hloop.symm.trans (hok.reader hreader)
    · exact nomatch hmatch
  | lost n =>
    obtain rfl := Option.some.inj hstep
    refine ⟨h.nodup, h.valid, fun i d hd => (h.entries i d hd).frame rfl rfl, h.entriesApart, h.connectsApart,
      h.apart, ?_, ?_, h.channels⟩
    · intro closer hcloser hphase
      have hc := h.closers closer hcloser hphase
      exact ⟨hc.clock, hc.connects, hc.registered⟩
    · show s.lost.eraseIdx n = []
      rw [h.lost, List.eraseIdx_nil]

/-! ### Steps of a closer -/

private theorem taken_setCloser (hc : s.closers[c]? = some closer) (phase : CloserPhase) :
    ∃ others, s.taken.Perm (closer.entries ++ others) ∧
      ((s.setCloser c closer phase).taken).Perm (({ closer with phase := phase } : Closer).entries ++ others) :=
  Pool.flatMap_set_perm Closer.entries hc _

theorem Inv.closer_unique (h : Inv s) {j : Nat} {closer' : Closer} (hc : s.closers[c]? = some closer)
    (hj : s.closers[j]? = some closer') (hmem : e ∈ closer.entries) (hmem' : e ∈ closer'.entries) : j = c :=
  Pool.holder_unique h.nodup.of_append_right hj hc hmem' hmem

theorem Inv.not_registered (h : Inv s) (htaken : e ∈ s.taken) : ¬s.registered e := by
  intro hregistered
  exact (List.disjoint_of_nodup_append h.nodup) (mem_values.2 hregistered) htaken

theorem EntryOk.setCloser {phase : CloserPhase} (h : EntryOk s e entry)
    (hconns : s'.conns = s.conns) (hclosers : s'.closers = (s.setCloser c closer phase).closers)
    (hrest : ∀ rest current, phase = .working rest current → e ∈ rest → entry.stopped = false ∧ entry.once = false)
    (hcurrent : ∀ rest, phase ≠ .working rest (some e)) (htaken : e ∉ s'.taken → e ∉ s.taken) : EntryOk s' e entry := by
  have hregistered : s'.registered e ↔ s.registered e := by rw [State.registered, State.registered, hconns]
  refine ⟨?_, ?_, ?_, ?_, h.dead, h.reader⟩
  · rw [hconns]
    exact h.registered
  · rw [hclosers]
    intro closer' hcloser' rest current hworking hmem
    rcases List.mem_or_eq_of_mem_set hcloser' with hcloser' | rfl
    · exact h.rest closer' hcloser' rest current hworking hmem
    · exact hrest rest current hworking hmem
  · rw [hclosers]
    intro closer' hcloser' rest hworking
    rcases List.mem_or_eq_of_mem_set hcloser' with hcloser' | rfl
    · exact h.current closer' hcloser' rest hworking
    · exact absurd hworking (hcurrent rest)
  · rw [hregistered]
    exact fun hreg hnot => h.finished hreg (htaken hnot)

/-- A closer that has begun is one that had begun. -/
private theorem closers_setCloser (hc : s.closers[c]? = some closer) (hphase : closer.phase ≠ .start)
    (phase : CloserPhase) :
    ∀ closer' ∈ (s.setCloser c closer phase).closers, closer'.phase ≠ .start →
      ∃ closer ∈ s.closers, closer.phase ≠ .start ∧ closer'.scope = closer.scope ∧ closer'.before = closer.before := by
  intro closer' hcloser' hphase'
  rcases List.mem_or_eq_of_mem_set hcloser' with hcloser' | rfl
  · exact ⟨closer', hcloser', hphase', rfl, rfl⟩
  · exact ⟨closer, List.mem_of_getElem? hc, hphase, rfl, rfl⟩

private theorem inv_block {rest : List Nat} {choice : Nat} (h : Inv s) (hc : s.closers[c]? = some closer)
    (hphase : closer.phase = .working rest none) (hchoice : rest[choice]? = some e) (he : s.entries[e]? = some entry)
    (hs' : s' = { (s.setCloser c closer (.working (rest.eraseIdx choice) (some e))).setEntry e
      { entry with closed := true, stopped := true } with closedTwice := s.closedTwice || entry.stopped }) :
        Inv s' := by
  have hcloser := List.mem_of_getElem? hc
  have hmem : e ∈ rest := List.mem_of_getElem? hchoice
  have hentries : closer.entries = rest := by rw [Closer.entries, hphase]; exact List.append_nil rest
  have hin : e ∈ closer.entries := hentries ▸ hmem
  obtain ⟨hrunning, honce⟩ := (h.entries e entry he).rest closer hcloser rest none hphase hmem
  have hperm : s'.taken.Perm s.taken := by
    obtain ⟨others, hbefore, hafter⟩ := taken_setCloser hc (.working (rest.eraseIdx choice) (some e))
    have htaken : s'.taken = (s.setCloser c closer (.working (rest.eraseIdx choice) (some e))).taken := by rw [hs']; rfl
    rw [htaken]
    refine hafter.trans (.trans ?_ hbefore.symm)
    rw [hentries]
    refine List.Perm.append_right others ?_
    obtain ⟨hlt, rfl⟩ := List.getElem?_eq_some_iff.1 hchoice
    exact List.perm_append_comm.trans (List.getElem_cons_eraseIdx_perm hlt)
  have htaken : e ∈ s.taken := List.mem_flatMap.2 ⟨closer, hcloser, hin⟩
  have hnodup : rest.Nodup := by
    obtain ⟨others, hbefore, -⟩ := taken_setCloser hc .returned
    have hsplit := hbefore.nodup_iff.1 h.nodup.of_append_right
    exact hentries ▸ hsplit.of_append_left
  have hconns : s'.conns = s.conns := by rw [hs']; rfl
  have hclosers : s'.closers = (s.setCloser c closer (.working (rest.eraseIdx choice) (some e))).closers := by
    rw [hs']
    rfl
  have hset : s'.entries = s.entries.set e { entry with closed := true, stopped := true } := by rw [hs']; rfl
  refine inv_of_entries h hconns (by rw [hs']; rfl) (by rw [hs']; rfl) (by rw [hs']; rfl) ?_ ?_
    ((hperm.append_left _).nodup_iff.2 h.nodup) (fun _ hi => hperm.mem_iff.1 hi) (by rw [hset, List.length_set]) ?_ ?_
  · rw [hs', h.channels, hrunning]
    rfl
  · rw [hclosers]
    exact closers_setCloser hc (by rw [hphase]; exact fun heq => nomatch heq) _
  · intro i d' hd'
    rw [hset] at hd'
    rcases Pool.getElem?_set_some hd' with ⟨rfl, rfl⟩ | ⟨hne, hd⟩
    · -- the entry itself
      refine ⟨fun id hid => absurd ⟨id, hconns ▸ hid⟩ (h.not_registered htaken), ?_, fun _ _ _ _ => ⟨rfl, honce⟩,
        fun _ hnot => absurd (hperm.mem_iff.2 htaken) hnot, (h.entries i entry he).dead, (h.entries i entry he).reader⟩
      rw [hclosers]
      intro closer' hcloser' rest' current hworking hmem'
      obtain ⟨j, hj⟩ := List.mem_iff_getElem?.1 hcloser'
      rcases Pool.getElem?_set_some hj with ⟨-, rfl⟩ | ⟨hne, hj⟩
      · obtain ⟨rfl, -⟩ := CloserPhase.working.inj hworking
        obtain ⟨hlt, rfl⟩ := List.getElem?_eq_some_iff.1 hchoice
        have hcons := (List.getElem_cons_eraseIdx_perm hlt).nodup_iff.2 hnodup
        exact absurd hmem' (List.nodup_cons.1 hcons).1
      · have hin' : i ∈ closer'.entries := by
          rw [Closer.entries, hworking]
          exact List.mem_append_left _ hmem'
        exact absurd (h.closer_unique hc hj hin hin') hne
    · refine (h.entries i d' hd).setCloser hconns hclosers ?_ ?_ fun hnot hi => hnot (hperm.mem_iff.2 hi)
      · intro rest' current hworking hmem'
        obtain ⟨rfl, -⟩ := CloserPhase.working.inj hworking
        exact (h.entries i d' hd).rest closer hcloser rest none hphase (List.mem_of_mem_eraseIdx hmem')
      · intro rest' hworking
        exact hne (Option.some.inj (CloserPhase.working.inj hworking).2).symm
  · intro i d' hd'
    rw [hset] at hd'
    rcases Pool.getElem?_set_some hd' with ⟨rfl, rfl⟩ | ⟨-, hd⟩
    · exact ⟨entry, he, rfl, rfl, fun _ => .inr (.inl htaken)⟩
    · exact ⟨d', hd, rfl, rfl, fun hlive => hlive.of_taken hconns hperm.mem_iff.1⟩

private theorem inv_safeClose {rest : List Nat} (h : Inv s) (hc : s.closers[c]? = some closer)
    (hphase : closer.phase = .working rest (some e)) (he : s.entries[e]? = some entry)
    (hs' : s' = (s.setCloser c closer (.working rest none)).setEntry e
      { entry with once := true, isOpen := entry.isOpen && entry.once }) : Inv s' := by
  have hcloser := List.mem_of_getElem? hc
  have hentries : closer.entries = rest ++ [e] := by rw [Closer.entries, hphase]; rfl
  have hin : e ∈ closer.entries := hentries ▸ List.mem_append_right _ (List.mem_singleton.2 rfl)
  obtain ⟨hstopped, honce⟩ := (h.entries e entry he).current closer hcloser rest hphase
  have htaken : e ∈ s.taken := List.mem_flatMap.2 ⟨closer, hcloser, hin⟩
  have hperm : s.taken.Perm (e :: s'.taken) := by
    obtain ⟨others, hbefore, hafter⟩ := taken_setCloser hc (.working rest none)
    have htaken' : s'.taken = (s.setCloser c closer (.working rest none)).taken := by rw [hs']; rfl
    rw [htaken']
    refine hbefore.trans (.trans ?_ (hafter.symm.cons e))
    rw [hentries]
    simp only [Closer.entries, Option.toList_none, List.append_nil, List.append_assoc, List.singleton_append]
    exact List.perm_middle
  have hnodup := hperm.nodup_iff.1 h.nodup.of_append_right
  have hnot : e ∉ s'.taken := (List.nodup_cons.1 hnodup).1
  have hconns : s'.conns = s.conns := by rw [hs']; rfl
  have hclosers : s'.closers = (s.setCloser c closer (.working rest none)).closers := by rw [hs']; rfl
  have hset : s'.entries = s.entries.set e { entry with once := true, isOpen := entry.isOpen && entry.once } := by
    rw [hs']; rfl
  refine inv_of_entries h hconns (by rw [hs']; rfl) (by rw [hs']; rfl) (by rw [hs']; rfl) ?_ ?_ ?_
    (fun _ hi => hperm.mem_iff.2 (List.mem_cons_of_mem _ hi)) (by rw [hset, List.length_set]) ?_ ?_
  · rw [hs']
    exact h.channels
  · rw [hclosers]
    exact closers_setCloser hc (by rw [hphase]; exact fun heq => nomatch heq) _
  · have hall := (hperm.append_left (s.conns.entries.map (·.2))).nodup_iff.1 h.nodup
    exact hall.sublist ((List.sublist_cons_self e _).append_left _)
  · intro i d' hd'
    rw [hset] at hd'
    rcases Pool.getElem?_set_some hd' with ⟨rfl, rfl⟩ | ⟨hne, hd⟩
    · -- the entry itself: nobody has it any more
      have hnone : ∀ closer' ∈ s'.closers, ∀ rest' current, closer'.phase = .working rest' current →
          ¬(i ∈ rest' ∨ current = some i) := by
        intro closer' hcloser' rest' current hworking hor
        exact hnot (mem_taken.2 ⟨closer', hcloser', rest', current, hworking, hor⟩)
      have hclosed : (entry.isOpen && entry.once) = false := by rw [honce, Bool.and_false]
      refine ⟨fun id hid => absurd ⟨id, hconns ▸ hid⟩ (h.not_registered htaken), ?_, ?_, fun _ _ => ⟨hstopped, hclosed⟩,
        fun _ => hclosed, (h.entries i entry he).reader⟩
      · intro closer' hcloser' rest' current hworking hmem
        exact absurd (.inl hmem) (hnone closer' hcloser' rest' current hworking)
      · intro closer' hcloser' rest' hworking
        exact absurd (.inr rfl) (hnone closer' hcloser' rest' _ hworking)
    · refine (h.entries i d' hd).setCloser hconns hclosers ?_ (fun _ hworking => nomatch hworking) ?_
      · intro rest' current hworking hmem
        obtain ⟨rfl, -⟩ := CloserPhase.working.inj hworking
        exact (h.entries i d' hd).rest closer hcloser rest (some e) hphase hmem
      · intro hnot' hi
        rcases List.mem_cons.1 (hperm.mem_iff.1 hi) with heq | hi
        · exact hne heq
        · exact hnot' hi
  · intro i d' hd'
    rw [hset] at hd'
    rcases Pool.getElem?_set_some hd' with ⟨rfl, rfl⟩ | ⟨-, hd⟩
    · exact ⟨entry, he, rfl, rfl, fun _ => .inr (.inl htaken)⟩
    · refine ⟨d', hd, rfl, rfl, fun hlive => hlive.of_taken hconns fun hmem => ?_⟩
      exact hperm.mem_iff.2 (List.mem_cons_of_mem _ hmem)

private theorem take_lookup (conns : GoMap Nat) (closer : Closer) (id : String) (e : Nat) :
    (take conns closer.scope).2.lookup id = some e ↔ conns.lookup id = some e ∧ ¬closer.covers id := by
  unfold Closer.covers
  cases closer.scope with
  | none => simp [take]
  | some id' =>
    by_cases heq : id = id'
    · subst heq
      simp [take]
    · simp [take, AList.lookup_erase_ne heq, heq]

private theorem take_perm (conns : GoMap Nat) (scope : Option String) :
    (conns.entries.map (·.2)).Perm ((take conns scope).1 ++ (take conns scope).2.entries.map (·.2)) := by
  cases scope with
  | none => simp [take]
  | some id =>
    cases hid : conns.lookup id with
    | none =>
      have hperm : conns.entries.Perm (conns.erase id).entries := by
        refine List.lookup_ext conns.nodupKeys (conns.erase id).nodupKeys fun x y => ?_
        show conns.lookup x = some y ↔ (conns.erase id).lookup x = some y
        by_cases hx : x = id
        · subst hx
          rw [hid, AList.lookup_erase]
        · rw [AList.lookup_erase_ne hx]
      simpa [take, hid] using hperm.map (·.2)
    | some e =>
      have hperm : conns.entries.Perm ((conns.erase id).insert id e).entries := by
        refine List.lookup_ext conns.nodupKeys (AList.nodupKeys _) fun x y => ?_
        show conns.lookup x = some y ↔ ((conns.erase id).insert id e).lookup x = some y
        by_cases hx : x = id
        · subst hx
          rw [hid, AList.lookup_insert]
        · rw [AList.lookup_insert_ne hx, AList.lookup_erase_ne hx]
      rw [AList.entries_insert_of_notMem (by simp)] at hperm
      simpa [take, hid] using hperm.map (·.2)

/-- The state after the first block of a closer, which takes entries out of the map. -/
def State.takeEntries (s : State) (c : Nat) (closer : Closer) : State :=
  { s with
    conns := (take s.conns closer.scope).2
    closers := s.closers.set c ⟨closer.scope, s.clock, .working (take s.conns closer.scope).1 none⟩ }

section Take

variable (hc : s.closers[c]? = some closer) (hphase : closer.phase = .start)
include hc hphase

private theorem taken_takeEntries :
    (s.takeEntries c closer).taken.Perm ((take s.conns closer.scope).1 ++ s.taken) := by
  obtain ⟨others, hbefore, hafter⟩ := Pool.flatMap_set_perm Closer.entries hc
    ⟨closer.scope, s.clock, .working (take s.conns closer.scope).1 none⟩
  have hempty : closer.entries = [] := by rw [Closer.entries, hphase]
  rw [hempty, List.nil_append] at hbefore
  refine hafter.trans ?_
  simp only [Closer.entries, Option.toList_none, List.append_nil]
  exact hbefore.symm.append_left _

private theorem perm_takeEntries : ((s.takeEntries c closer).conns.entries.map (·.2) ++
    (s.takeEntries c closer).taken).Perm
    (s.conns.entries.map (·.2) ++ s.taken) := by
  refine ((taken_takeEntries hc hphase).append_left _).trans ?_
  rw [← List.append_assoc]
  exact (List.perm_append_comm.trans (take_perm s.conns closer.scope).symm).append_right _

private theorem mem_takeEntries : (s.takeEntries c closer).registered e ∨ e ∈ (s.takeEntries c closer).taken ↔
    s.registered e ∨ e ∈ s.taken := by
  rw [← mem_values, ← mem_values, ← List.mem_append, ← List.mem_append]
  exact (perm_takeEntries hc hphase).mem_iff

private theorem live_takeEntries (hlive : (s.takeEntries c closer).live e entry) : s.live e entry := by
  rw [State.live, ← or_assoc] at hlive ⊢
  exact hlive.imp_left (mem_takeEntries hc hphase).1

theorem EntryOk.takeEntries (h : EntryOk s e entry) : EntryOk (s.takeEntries c closer) e entry := by
  refine ⟨fun id hid => h.registered id ((take_lookup s.conns closer id e).1 hid).1, ?_, ?_, ?_, h.dead, h.reader⟩
  · intro closer' hcloser' rest current hworking hi
    rcases List.mem_or_eq_of_mem_set hcloser' with hcloser' | rfl
    · exact h.rest closer' hcloser' rest current hworking hi
    · -- it was registered before
      obtain ⟨rfl, -⟩ := CloserPhase.working.inj hworking
      have hvalue := (take_perm s.conns closer.scope).mem_iff.2 (List.mem_append_left _ hi)
      obtain ⟨id, hid⟩ := mem_values.1 hvalue
      exact (h.registered id hid).2
  · intro closer' hcloser' rest hworking
    rcases List.mem_or_eq_of_mem_set hcloser' with hcloser' | rfl
    · exact h.current closer' hcloser' rest hworking
    · cases (CloserPhase.working.inj hworking).2
  · intro hreg hnot
    have hneither := fun hor => ((mem_takeEntries hc hphase).2 hor).elim hreg hnot
    exact h.finished (fun hreg' => hneither (.inl hreg')) fun hi => hneither (.inr hi)

private theorem inv_takeEntries (h : Inv s)
    (halone : ∀ connect ∈ s.connects, closer.covers connect.id → connect.inProgress = false) :
    Inv (s.takeEntries c closer) := by
  have hall := perm_takeEntries hc hphase
  refine ⟨hall.nodup_iff.2 h.nodup, fun i hi => h.valid i (hall.mem_iff.1 hi),
    fun i d hd => (h.entries i d hd).takeEntries hc hphase, ?_, h.connectsApart, ?_, ?_, h.lost, h.channels⟩
  · intro i j d d' hd hd' hlive hlive' heq
    exact h.entriesApart i j d d' hd hd' (live_takeEntries hc hphase hlive) (live_takeEntries hc hphase hlive') heq
  · intro connect hconnect i d hd hprogress hlive
    exact h.apart connect hconnect i d hd hprogress (live_takeEntries hc hphase hlive)
  · intro closer' hcloser' hphase'
    rcases List.mem_or_eq_of_mem_set hcloser' with hcloser' | rfl
    · have hok := h.closers closer' hcloser' hphase'
      refine ⟨hok.clock, hok.connects, fun id i d hid hd hcovers => ?_⟩
      exact hok.registered id i d ((take_lookup s.conns closer id i).1 hid).1 hd hcovers
    · refine ⟨Nat.le_refl _, ?_, ?_⟩
      · intro connect hconnect hprogress hcovers
        exact nomatch hprogress.symm.trans (halone connect hconnect hcovers)
      · intro id i d hid _ hcovers
        exact absurd hcovers ((take_lookup s.conns closer id i).1 hid).2

end Take

/-- The closer has nothing left to do. -/
private theorem inv_return (h : Inv s) (hc : s.closers[c]? = some closer) (hphase : closer.phase = .working [] none) :
    Inv (s.setCloser c closer .returned) := by
  have hperm : (s.setCloser c closer .returned).taken.Perm s.taken := by
    obtain ⟨others, hbefore, hafter⟩ := taken_setCloser hc .returned
    have hempty : closer.entries = [] := by rw [Closer.entries, hphase]; rfl
    rw [hempty] at hbefore
    exact hafter.trans hbefore.symm
  refine inv_of_entries h rfl rfl rfl rfl h.channels
    (closers_setCloser hc (by rw [hphase]; exact fun heq => nomatch heq) _)
    ((hperm.append_left _).nodup_iff.2 h.nodup) (fun _ hi => hperm.mem_iff.1 hi) rfl ?_ ?_
  · intro i d hd
    exact (h.entries i d hd).setCloser rfl rfl (fun _ _ hworking => nomatch hworking)
      (fun _ hworking => nomatch hworking)
      fun hnot hi => hnot (hperm.mem_iff.2 hi)
  · intro i d hd
    exact ⟨d, hd, rfl, rfl, fun hlive => hlive.of_taken rfl hperm.mem_iff.1⟩

private theorem inv_close {choice : Nat} (h : Inv s) (hc : s.closers[c]? = some closer)
    (halone : closer.phase = .start → ∀ connect ∈ s.connects, closer.covers connect.id → connect.inProgress = false)
    (hstep : closeStep s c closer choice = some s') : Inv s' := by
  cases hphase : closer.phase with
  | start =>
    simp only [closeStep, hphase, Option.some.injEq] at hstep
    subst hstep
    exact inv_takeEntries hc hphase h (halone hphase)
  | working rest current =>
    cases current with
    | none =>
      simp only [closeStep, hphase] at hstep
      split_ifs at hstep with hempty
      · obtain rfl := Option.some.inj hstep
        subst hempty
        exact inv_return h hc hphase
      · obtain ⟨e, hchoice, hmap⟩ := Option.bind_eq_some_iff.1 hstep
        obtain ⟨entry, he, heq⟩ := Option.map_eq_some_iff.1 hmap
        exact inv_block h hc hphase hchoice he heq.symm
    | some e =>
      simp only [closeStep, hphase] at hstep
      obtain ⟨entry, he, heq⟩ := Option.map_eq_some_iff.1 hstep
      exact inv_safeClose h hc hphase he heq.symm
  | returned =>
    rw [closeStep, hphase] at hstep
    exact nomatch hstep

/-! ### Whole runs -/

private theorem inv_callConnect (h : Inv s) (id : String) :
    Inv { s with connects := s.connects ++ [⟨id, 0, .start⟩] } := by
  have hold : ∀ (i : Nat) d, (s.connects ++ [⟨id, 0, .start⟩])[i]? = some d → d.inProgress = true →
      s.connects[i]? = some d := by
    intro i d hd hprogress
    rcases Pool.getElem?_concat_some hd with hd | ⟨-, rfl⟩
    · exact hd
    · cases hprogress
  have hmem : ∀ d ∈ s.connects ++ [⟨id, 0, .start⟩], d.inProgress = true → d ∈ s.connects := by
    intro d hd hprogress
    obtain ⟨i, hi⟩ := List.mem_iff_getElem?.1 hd
    exact List.mem_of_getElem? (hold i d hi hprogress)
  refine ⟨h.nodup, h.valid, fun i d hd => (h.entries i d hd).frame rfl rfl, h.entriesApart, ?_, ?_, ?_, h.lost,
    h.channels⟩
  · intro i j d d' hd hd' hd₁ hd₂ heq
    exact h.connectsApart i j d d' (hold i d hd hd₁) (hold j d' hd' hd₂) hd₁ hd₂ heq
  · intro d hd i entry he hprogress hlive
    exact h.apart d (hmem d hd hprogress) i entry he hprogress hlive
  · intro closer hcloser hphase
    have hok := h.closers closer hcloser hphase
    exact ⟨hok.clock, fun d hd hprogress => hok.connects d (hmem d hd hprogress) hprogress, hok.registered⟩

private theorem inv_callClose (h : Inv s) (scope : Option String) :
    Inv { s with closers := s.closers ++ [⟨scope, 0, .start⟩] } := by
  have htaken : State.taken { s with closers := s.closers ++ [⟨scope, 0, .start⟩] } = s.taken := by
    simp [State.taken, Closer.entries]
  have hlive : ∀ (i : Nat) d, State.live { s with closers := s.closers ++ [⟨scope, 0, .start⟩] } i d → s.live i d := by
    intro i d hlive
    rwa [State.live, htaken] at hlive
  have hmem : ∀ closer ∈ s.closers ++ [⟨scope, 0, .start⟩], closer ∈ s.closers ∨ closer.phase = .start := by
    intro closer hcloser
    rcases List.mem_append.1 hcloser with hcloser | hcloser
    · exact .inl hcloser
    · rw [List.mem_singleton.1 hcloser]
      exact .inr rfl
  refine ⟨by rw [htaken]; exact h.nodup, by rw [htaken]; exact h.valid, ?_, ?_, h.connectsApart, ?_, ?_, h.lost,
    h.channels⟩
  · intro i d hd
    have hok := h.entries i d hd
    refine ⟨hok.registered, ?_, ?_, by rw [htaken]; exact hok.finished, hok.dead, hok.reader⟩
    · intro closer hcloser rest current hworking
      rcases hmem closer hcloser with hcloser | hstart
      · exact hok.rest closer hcloser rest current hworking
      · exact nomatch hworking.symm.trans hstart
    · intro closer hcloser rest hworking
      rcases hmem closer hcloser with hcloser | hstart
      · exact hok.current closer hcloser rest hworking
      · exact nomatch hworking.symm.trans hstart
  · intro i j d d' hd hd' hlive₁ hlive₂
    exact h.entriesApart i j d d' hd hd' (hlive i d hlive₁) (hlive j d' hlive₂)
  · intro connect hconnect i d hd hprogress hlive'
    exact h.apart connect hconnect i d hd hprogress (hlive i d hlive')
  · intro closer hcloser hphase
    have hok := h.closers closer ((hmem closer hcloser).resolve_right hphase) hphase
    exact ⟨hok.clock, hok.connects, hok.registered⟩

theorem inv_step {a : Action} (h : Inv s) (halone : alone s a) (hstep : step s a = some s') : Inv s' := by
  cases a with
  | callConnect id =>
    obtain rfl := Option.some.inj hstep
    exact inv_callConnect h id
  | connect k ok =>
    obtain ⟨connect, hk, hstep⟩ := Option.bind_eq_some_iff.1 hstep
    exact inv_connect h hk (halone connect hk) hstep
  | callClose scope =>
    obtain rfl := Option.some.inj hstep
    exact inv_callClose h scope
  | close c choice =>
    obtain ⟨closer, hc, hstep⟩ := Option.bind_eq_some_iff.1 hstep
    exact inv_close h hc (halone closer hc) hstep
  | readerExit e =>
    obtain ⟨entry, he, hstep⟩ := Option.bind_eq_some_iff.1 hstep
    exact inv_readerExit h he hstep
  | loop e attempts ok =>
    obtain ⟨entry, he, hstep⟩ := Option.bind_eq_some_iff.1 hstep
    exact inv_loop h he hstep
  | disconnect holder => exact inv_disconnect h hstep

/-- Every open socket is owned, in every run in which a `Connect` is alone with its id between its two blocks. -/
theorem gateway_owned {as : List Action} (hrun : run step initial as = some s) (halone : Meets step alone initial as) :
    Owned s := by
  have h₀ : Inv initial := by
    refine ⟨List.nodup_nil, ?_, ?_, ?_, ?_, ?_, ?_, rfl, rfl⟩ <;> simp [initial, State.taken]
  exact (run_invariant_of_meets (fun _ _ _ hs hc hstep => inv_step hs hc hstep) h₀ halone hrun).owned_all

/-- A connection that is lost, comes back and is closed, and a new one under the same id. -/
def reconnected : List Action :=
  [.callConnect "a", .connect 0 true, .connect 0 true, .connect 0 true, .disconnect (.entry 0), .readerExit 0,
    .loop 0 1 true,
    .loop 0 1 true, .loop 0 1 true, .loop 0 1 true, .loop 0 1 true, .loop 0 1 true, .callClose (some "a"), .close 0 0,
    .close 0 0, .close 0 0, .close 0 0, .callConnect "a", .connect 1 true, .connect 1 true, .connect 1 true]

theorem gateway_owned_reconnected : ∃ s, run step initial reconnected = some s ∧
    s.entries.map Entry.isOpen = [false, true] ∧ Owned s := by
  obtain ⟨s, hrun, hs⟩ := exists_run step initial reconnected
    (p := fun s => decide (s.entries.map Entry.isOpen = [false, true])) (by decide +kernel)
  exact ⟨s, hrun, of_decide_eq_true hs, gateway_owned hrun (by decide +kernel)⟩

/-- Two calls of `Connect` with one id. -/
def twice : List Action :=
  [.callConnect "a", .callConnect "a", .connect 0 true, .connect 1 true, .connect 0 true, .connect 1 true,
    .connect 0 true, .connect 1 true]

/-- Both sockets are open, and only the second one has an entry in the map. -/
theorem gateway_not_owned : ∃ s, run step initial twice = some s ∧ ¬Owned s := by
  obtain ⟨s, hrun, hs⟩ := exists_run step initial twice
    (p := fun s => decide (s.openAt (.entry 0) = some ("a", 0) ∧ s.openAt (.entry 1) = some ("a", 1)))
      (by decide +kernel)
  obtain ⟨hfirst, hsecond⟩ := of_decide_eq_true hs
  exact ⟨s, hrun, fun h => nomatch h.single _ _ _ _ _ hfirst hsecond⟩

end Noda.Wasm.Gateway
