import Noda.Lib.Pool
import Noda.Lib.Transition

/-!
# Stopping a Wasm module

`Start`, the tick loop, `Query`, `SendCommand`, `CallAsync` as far as it registers outstanding calls, and `Stop`, with
any number of calls of each side by side.  Each block under a lock, each guest call, each operation on a channel and
each access to a flag is one step.  Which case a `select` takes, how a guest call ends and whether `Stop` waits for the
outstanding calls to the end are free.

`Stop` takes a module that is not running for one that was never started, and closes the plugin at once.  But a module
is not running from the moment at which the first `Stop` begins: a second `Stop` closes the plugin while the first one
waits for the tick loop or is in the guest (`stop_not_safe`).  In every run in which this does not happen, and no
`Start` comes after a `Stop`, the protocol is safe (`stop_safe`).
-/

namespace Noda.Wasm.Stop

open Transition

/-- Where a tick loop is: `tick` and `query` are guest calls, and `draining` says that the query was taken after a
tick. -/
inductive Loop where
  | head
  | selecting
  | collecting
  | tick
  | query (drained : Bool)
  | draining
  | exiting
  | done
  deriving DecidableEq, Repr

def Loop.inGuest : Loop → Bool
  | .tick | .query _ => true
  | _ => false

/-- Where a `Stop` is; `calling` is the guest call of `shutdown`, and `closing` is `Plugin.Close`. -/
inductive Phase where
  | start
  | cancelling
  | waiting
  | calling
  | outstanding
  | clearing
  | closingGateway
  | releasing
  | closing
  | returned
  deriving DecidableEq, Repr

/-- `stopCh`, `tickDone` and `closes` count how often the channel was closed and how often the plugin; `queryCh` is the
number of requests in the channel, `senders` of those that wait to be sent, and `commands` of the calls of `SendCommand`
that have found that the module has not failed.  `adds` is a ghost: the value of the flag at each `Add` to the
outstanding calls. -/
structure State where
  running : Bool
  stopping : Bool
  failed : Bool
  closed : Bool
  stopCh : Nat
  tickDone : Nat
  queryCh : Nat
  senders : Nat
  commands : Nat
  outstandingCalls : Nat
  loops : List Loop
  stops : List Phase
  closes : Nat
  adds : List Bool

def initial : State := ⟨false, false, false, false, 0, 0, 0, 0, 0, 0, [], [], 0, []⟩

/-- The case that a `select` takes. -/
inductive Choice where
  | stop
  | tick
  | query
  deriving DecidableEq, Repr

/-- How a guest call ends. -/
inductive Outcome where
  | ok
  | failed
  | interrupted
  deriving DecidableEq, Repr

/-- `push` is a request that is sent to the loop, `abandon` one that is given up, `finish` the end of an outstanding
call; `timeout` says that `Stop` does not wait any longer for the outstanding calls. -/
inductive Action where
  | start
  | loop (i : Nat) (choice : Choice) (outcome : Outcome)
  | query
  | callSendCommand
  | sendCommand
  | callAsync
  | push
  | abandon
  | finish
  | callStop
  | stop (j : Nat) (timeout : Bool)
  deriving DecidableEq, Repr

/-- The exports of the module. -/
structure Exports where
  tick : Bool
  command : Bool
  deriving DecidableEq, Repr

/-- `queryChannelBuffer`. -/
def queryChannelBuffer : Nat := 16

/-- `Start`. -/
def State.start (s : State) : State :=
  if s.running then s else { s with running := true, loops := s.loops ++ [.head] }

def State.loopTo (s : State) (i : Nat) (loop : Loop) : State := { s with loops := s.loops.set i loop }

/-- `markFailed`, if the call was interrupted. -/
def State.mark (s : State) (outcome : Outcome) : State := { s with failed := s.failed || outcome == .interrupted }

/-- One step of `tickLoop`, `executeTick`, `drainQueries` and `processQuery`. -/
def loopStep (exports : Exports) (s : State) (i : Nat) (choice : Choice) (outcome : Outcome) : Loop → Option State
  | .head => some (s.loopTo i (if s.failed then .exiting else .selecting))
  | .selecting =>
    match choice with
    | .stop => if 0 < s.stopCh then some (s.loopTo i .exiting) else none
    | .tick => if exports.tick then some (s.loopTo i .collecting) else none
    | .query => if 0 < s.queryCh then some ({ s with queryCh := s.queryCh - 1 }.loopTo i (.query false)) else none
  | .collecting => some (s.loopTo i (if outcome = .ok then .tick else .head))
  | .tick => some ((s.mark outcome).loopTo i (if outcome = .ok then .draining else .head))
  | .query drained => some ((s.mark outcome).loopTo i (if drained then .draining else .head))
  | .draining =>
    if s.queryCh = 0 then some (s.loopTo i .head)
    else some ({ s with queryCh := s.queryCh - 1 }.loopTo i (.query true))
  | .exiting => some ({ s with tickDone := s.tickDone + 1 }.loopTo i .done)
  | .done => none

/-- `tryAddOutstanding`. -/
def State.tryAddOutstanding (s : State) : State :=
  if s.stopping then s else { s with outstandingCalls := s.outstandingCalls + 1, adds := s.stopping :: s.adds }

def State.stopTo (s : State) (j : Nat) (phase : Phase) : State := { s with stops := s.stops.set j phase }

/-- One step of `Stop`. -/
def stopStep (s : State) (j : Nat) (timeout : Bool) : Phase → Option State
  | .start =>
    if s.running then
      some ({ s with running := false, stopping := true, stopCh := s.stopCh + 1 }.stopTo j .cancelling)
    else some (s.stopTo j .releasing)
  | .cancelling => some (s.stopTo j .waiting)
  | .waiting => if 0 < s.tickDone then some (s.stopTo j .calling) else none
  | .calling => some (s.stopTo j .outstanding)
  | .outstanding => if s.outstandingCalls = 0 ∨ timeout then some (s.stopTo j .clearing) else none
  | .clearing => some (s.stopTo j .closingGateway)
  | .closingGateway => some (s.stopTo j .releasing)
  | .releasing =>
    if s.closed then some (s.stopTo j .returned)
    else some ({ s with closed := true, closes := s.closes + 1 }.stopTo j .closing)
  | .closing => some (s.stopTo j .returned)
  | .returned => none

def step (exports : Exports) (s : State) : Action → Option State
  | .start => some s.start
  | .loop i choice outcome => (s.loops[i]?).bind (loopStep exports s i choice outcome)
  | .query => if s.failed || s.stopping then some s else some { s with senders := s.senders + 1 }
  | .callSendCommand => if s.failed then some s else some { s with commands := s.commands + 1 }
  | .sendCommand =>
    if s.commands = 0 then none
    else if s.stopping || !exports.command then some { s with commands := s.commands - 1 }
    else some { s.tryAddOutstanding with commands := s.commands - 1, senders := s.senders + 1 }
  | .callAsync => some s.tryAddOutstanding
  | .push =>
    if 0 < s.senders ∧ s.queryCh < queryChannelBuffer then
      some { s with senders := s.senders - 1, queryCh := s.queryCh + 1 }
    else none
  | .abandon => if 0 < s.senders then some { s with senders := s.senders - 1 } else none
  | .finish => if 0 < s.outstandingCalls then some { s with outstandingCalls := s.outstandingCalls - 1 } else none
  | .callStop => some { s with stops := s.stops ++ [.start] }
  | .stop j timeout => (s.stops[j]?).bind (stopStep s j timeout)

/-! ### Safety -/

/-- Who may call the guest. -/
inductive Caller where
  | loop (i : Nat)
  | stop (j : Nat)
  deriving DecidableEq, Repr

def State.inGuest (s : State) : Caller → Prop
  | .loop i => ∃ loop, s.loops[i]? = some loop ∧ loop.inGuest = true
  | .stop j => s.stops[j]? = some .calling

/-- What is expected of the module. -/
structure Safe (s : State) : Prop where
  /-- Two guest calls do not overlap. -/
  alone : ∀ c c', s.inGuest c → s.inGuest c' → c = c'
  /-- From the beginning of `Plugin.Close` on, nobody is in the guest. -/
  closed : 0 < s.closes → ∀ c, ¬s.inGuest c
  closeOnce : s.closes ≤ 1
  /-- No call is registered once the module is stopping. -/
  adds : ∀ stopping ∈ s.adds, stopping = false
  stopOnce : s.stopCh ≤ 1

/-- The `Stop` is past its guest call. -/
def Phase.pastShutdown : Phase → Bool
  | .outstanding | .clearing | .closingGateway | .releasing | .closing | .returned => true
  | _ => false

/-- A `Start` that takes effect comes before every `Stop`; a `Stop` that finds the module not running finds that it was
never started, or that another `Stop` is past its guest call. -/
def ordered (s : State) : Action → Prop
  | .start => s.running = false → ∀ phase ∈ s.stops, phase = .start
  | .stop j _ => s.stops[j]? = some .start → s.running = false →
      s.loops = [] ∨ ∃ phase ∈ s.stops, phase.pastShutdown = true
  | _ => True

instance decidableOrdered : ∀ (s : State) (a : Action), Decidable (ordered s a)
  | s, .start => inferInstanceAs (Decidable (s.running = false → ∀ phase ∈ s.stops, phase = .start))
  | s, .stop j _ => inferInstanceAs (Decidable (s.stops[j]? = some .start → s.running = false →
      s.loops = [] ∨ ∃ phase ∈ s.stops, phase.pastShutdown = true))
  | _, .loop _ _ _ | _, .query | _, .callSendCommand | _, .sendCommand | _, .callAsync | _, .push | _, .abandon
  | _, .finish | _, .callStop => .isTrue trivial

/-- The `Stop` has found the module running, and has not yet come to the plugin. -/
def Phase.main : Phase → Bool
  | .cancelling | .waiting | .calling | .outstanding | .clearing | .closingGateway => true
  | _ => false

/-- The `Stop` is before the end of its guest call. -/
def Phase.early : Phase → Bool
  | .cancelling | .waiting | .calling => true
  | _ => false

/-- The `Stop` has come to the plugin. -/
def Phase.released : Phase → Bool
  | .releasing | .closing | .returned => true
  | _ => false

/-- The `Stop` is past the tick loop. -/
def Phase.late (phase : Phase) : Bool := phase == .calling || phase.pastShutdown

/-- The `Stop` goes on from one phase to another one. -/
def Phase.leadsTo (phase phase' : Phase) : Prop :=
  phase ≠ .start ∧ phase' ≠ .start ∧ (phase'.main = true → phase.main = true) ∧
    (phase'.early = true → phase.early = true) ∧ (phase.released = true → phase'.released = true)

instance (phase phase' : Phase) : Decidable (phase.leadsTo phase') := inferInstanceAs (Decidable (_ ∧ _))

/-- The invariant. -/
structure Inv (s : State) : Prop where
  one : s.loops.length ≤ 1
  /-- While the module runs, no `Stop` has begun. -/
  running : s.running = true → s.loops ≠ [] ∧ s.stopping = false ∧ ∀ phase ∈ s.stops, phase = .start
  /-- A module that does not run and that nobody has begun to stop was never started. -/
  idle : s.running = false → (∀ phase ∈ s.stops, phase = .start) → s.loops = []
  stopCh : s.stopCh = s.stopping.toNat
  stopping : s.stopping = true → ∃ phase ∈ s.stops, phase ≠ .start
  main : ∀ (i j : Nat) phase phase', s.stops[i]? = some phase → s.stops[j]? = some phase' → phase.main = true →
    phase'.main = true → i = j
  started : ∀ phase ∈ s.stops, phase.main = true → s.loops ≠ []
  ticked : 0 < s.tickDone → s.loops ≠ []
  /-- Past the tick loop, the loop has ended. -/
  ended : (0 < s.tickDone ∨ ∃ phase ∈ s.stops, phase.late = true) → ∀ loop ∈ s.loops, loop = .done
  /-- When one `Stop` has come to the plugin, no other one is before the end of its guest call. -/
  quiet : (∃ phase ∈ s.stops, phase.released = true) → ∀ phase ∈ s.stops, phase.early = false
  closes : s.closes = s.closed.toNat
  closed : s.closed = true → ∃ phase ∈ s.stops, phase.released = true
  adds : ∀ stopping ∈ s.adds, stopping = false

variable {exports : Exports} {s s' : State} {i j : Nat}

theorem Inv.safe (h : Inv s) : Safe s := by
  have hloop : ∀ i j, s.inGuest (.loop i) → s.inGuest (.stop j) → False := by
    rintro i j ⟨loop, hloop, hguest⟩ hstop
    have hdone := h.ended (.inr ⟨_, List.mem_of_getElem? hstop, rfl⟩) loop (List.mem_of_getElem? hloop)
    rw [hdone] at hguest
    exact nomatch hguest
  refine ⟨?_, ?_, ?_, h.adds, ?_⟩
  · rintro (i | i) (j | j) hi hj
    · obtain ⟨_, hi, -⟩ := hi
      obtain ⟨_, hj, -⟩ := hj
      have hone := h.one
      have hilt := (List.getElem?_eq_some_iff.1 hi).1
      have hjlt := (List.getElem?_eq_some_iff.1 hj).1
      rw [show i = j by omega]
    · exact absurd hj fun hj => hloop i j hi hj
    · exact absurd hi fun hi => hloop j i hj hi
    · rw [h.main i j _ _ hi hj rfl rfl]
  · intro hcloses c hguest
    have hclosed : s.closed = true := by
      cases hclosed : s.closed with
      | true => rfl
      | false =>
        rw [h.closes, hclosed] at hcloses
        exact absurd hcloses (by decide)
    obtain ⟨phase, hphase, hreleased⟩ := h.closed hclosed
    cases c with
    | loop i =>
      obtain ⟨loop, hloop, hguest⟩ := hguest
      have hlate : phase.late = true := by
        revert hreleased
        cases phase <;> decide
      have hdone := h.ended (.inr ⟨phase, hphase, hlate⟩) loop (List.mem_of_getElem? hloop)
      rw [hdone] at hguest
      exact nomatch hguest
    | stop j =>
      have hearly := h.quiet ⟨phase, hphase, hreleased⟩ _ (List.mem_of_getElem? hguest)
      exact nomatch hearly
  · rw [h.closes]
    cases s.closed <;> decide
  · rw [h.stopCh]
    cases s.stopping <;> decide

/-! ### The tick loop -/

/-- A step of a loop that has not ended: whatever else it does, it does not touch what `Stop` works on. -/
private theorem loopStep_frame {choice : Choice} {outcome : Outcome} {loop : Loop}
    (hstep : loopStep exports s i choice outcome loop = some s') :
    loop ≠ .done ∧ ∃ loop', s'.loops = s.loops.set i loop' ∧ s'.running = s.running ∧ s'.stopping = s.stopping ∧
      s'.stopCh = s.stopCh ∧ s'.stops = s.stops ∧ s'.closed = s.closed ∧ s'.closes = s.closes ∧ s'.adds = s.adds ∧
      (s'.tickDone = s.tickDone ∨ loop' = .done) := by
  cases loop with
  | selecting =>
    cases choice <;>
    · simp only [loopStep, Option.ite_none_right_eq_some, Option.some.injEq] at hstep
      obtain ⟨-, rfl⟩ := hstep
      exact ⟨by decide, _, rfl, rfl, rfl, rfl, rfl, rfl, rfl, rfl, .inl rfl⟩
  | draining =>
    simp only [loopStep] at hstep
    split_ifs at hstep
    · obtain rfl := Option.some.inj hstep
      exact ⟨by decide, _, rfl, rfl, rfl, rfl, rfl, rfl, rfl, rfl, .inl rfl⟩
    · obtain rfl := Option.some.inj hstep
      exact ⟨by decide, _, rfl, rfl, rfl, rfl, rfl, rfl, rfl, rfl, .inl rfl⟩
  | exiting =>
    obtain rfl := Option.some.inj hstep
    exact ⟨by decide, _, rfl, rfl, rfl, rfl, rfl, rfl, rfl, rfl, .inr rfl⟩
  | done => exact nomatch hstep
  | head =>
    obtain rfl := Option.some.inj hstep
    exact ⟨by decide, _, rfl, rfl, rfl, rfl, rfl, rfl, rfl, rfl, .inl rfl⟩
  | collecting =>
    obtain rfl := Option.some.inj hstep
    exact ⟨by decide, _, rfl, rfl, rfl, rfl, rfl, rfl, rfl, rfl, .inl rfl⟩
  | tick =>
    obtain rfl := Option.some.inj hstep
    exact ⟨by decide, _, rfl, rfl, rfl, rfl, rfl, rfl, rfl, rfl, .inl rfl⟩
  | query drained =>
    obtain rfl := Option.some.inj hstep
    exact ⟨by simp, _, rfl, rfl, rfl, rfl, rfl, rfl, rfl, rfl, .inl rfl⟩

private theorem inv_loop {choice : Choice} {outcome : Outcome} {loop : Loop} (h : Inv s) (hi : s.loops[i]? = some loop)
    (hstep : loopStep exports s i choice outcome loop = some s') : Inv s' := by
  obtain ⟨hnot, loop', hloops, hrunning, hstopping, hstopCh, hstops, hclosed, hcloses, hadds, htickDone⟩ :=
    loopStep_frame hstep
  have hbefore : ¬(0 < s.tickDone ∨ ∃ phase ∈ s.stops, phase.late = true) :=
    fun hpast => hnot (h.ended hpast loop (List.mem_of_getElem? hi))
  have hone := h.one
  have hlt := (List.getElem?_eq_some_iff.1 hi).1
  have hsingle : s'.loops = [loop'] := by
    obtain ⟨loop₀, hloop₀⟩ := List.length_eq_one_iff.1 (show s.loops.length = 1 by omega)
    rw [hloops, hloop₀]
    obtain rfl : i = 0 := by rw [hloop₀] at hlt; simpa using hlt
    rfl
  have hne : s.loops ≠ [] := List.ne_nil_of_length_pos (by omega)
  constructor
  · rw [hsingle]
    exact Nat.le_refl 1
  · rw [hrunning, hstopping, hstops, hsingle]
    exact fun hr => ⟨List.cons_ne_nil _ _, (h.running hr).2⟩
  · rw [hrunning, hstops]
    exact fun hr hstart => absurd (h.idle hr hstart) hne
  · rw [hstopCh, hstopping]
    exact h.stopCh
  · rw [hstopping, hstops]
    exact h.stopping
  · rw [hstops]
    exact h.main
  · rw [hsingle]
    exact fun _ _ _ => List.cons_ne_nil _ _
  · rw [hsingle]
    exact fun _ => List.cons_ne_nil _ _
  · rw [hstops, hsingle]
    intro hpast l hl
    rw [List.mem_singleton.1 hl]
    rcases htickDone with htickDone | hdone
    · rw [htickDone] at hpast
      exact absurd hpast hbefore
    · exact hdone
  · rw [hstops]
    exact h.quiet
  · rw [hcloses, hclosed]
    exact h.closes
  · rw [hclosed, hstops]
    exact h.closed
  · rw [hadds]
    exact h.adds

/-! ### `Stop` -/

/-- A `Stop` that has begun goes on. -/
private theorem inv_stopTo {phase phase' : Phase} (h : Inv s) (hj : s.stops[j]? = some phase)
    (hnext : phase.leadsTo phase')
    (hended : phase'.late = true → ∀ loop ∈ s.loops, loop = .done)
    (hquiet : phase'.released = true → ∀ (i : Nat) p, i ≠ j → s.stops[i]? = some p → p.early = false) :
    Inv (s.stopTo j phase') := by
  obtain ⟨hbegun, hbegun', hmain, hearly, hreleased⟩ := hnext
  have hself : phase' ∈ s.stops.set j phase' := Pool.mem_set_self phase' hj
  have hmem := List.mem_of_getElem? hj
  constructor
  · exact h.one
  · intro hrunning
    exact absurd ((h.running hrunning).2.2 phase hmem) hbegun
  · intro _ hstart
    exact absurd (hstart phase' hself) hbegun'
  · exact h.stopCh
  · exact fun _ => ⟨phase', hself, hbegun'⟩
  · intro i k p q hi hk hp hq
    have hold : ∀ (i : Nat) p, (s.stops.set j phase')[i]? = some p → p.main = true →
        ∃ p₀, s.stops[i]? = some p₀ ∧ p₀.main = true := by
      intro i p hi hp
      rcases Pool.getElem?_set_some hi with ⟨rfl, rfl⟩ | ⟨-, hi⟩
      · exact ⟨phase, hj, hmain hp⟩
      · exact ⟨p, hi, hp⟩
    obtain ⟨p₀, hi, hp₀⟩ := hold i p hi hp
    obtain ⟨q₀, hk, hq₀⟩ := hold k q hk hq
    exact h.main i k p₀ q₀ hi hk hp₀ hq₀
  · intro p hp hp'
    rcases List.mem_or_eq_of_mem_set hp with hp | rfl
    · exact h.started p hp hp'
    · exact h.started phase hmem (hmain hp')
  · exact h.ticked
  · rintro (htickDone | ⟨p, hp, hlate⟩)
    · exact h.ended (.inl htickDone)
    · rcases List.mem_or_eq_of_mem_set hp with hp | rfl
      · exact h.ended (.inr ⟨p, hp, hlate⟩)
      · exact hended hlate
  · rintro ⟨p, hp, hp'⟩ q hq
    rcases List.mem_or_eq_of_mem_set hp with hp | rfl
    · -- somebody else had come to the plugin before
      have hbefore := h.quiet ⟨p, hp, hp'⟩
      rcases List.mem_or_eq_of_mem_set hq with hq | rfl
      · exact hbefore q hq
      · exact Bool.eq_false_iff.2 fun hq => Bool.eq_false_iff.1 (hbefore phase hmem) (hearly hq)
    · obtain ⟨k, hk⟩ := List.mem_iff_getElem?.1 hq
      rcases Pool.getElem?_set_some hk with ⟨-, rfl⟩ | ⟨hne, hk⟩
      · revert hp'
        cases q <;> decide
      · exact hquiet hp' k q hne hk
  · exact h.closes
  · intro hclosed
    obtain ⟨p, hp, hp'⟩ := h.closed hclosed
    rcases Pool.mem_set_of_mem phase' hj hp with rfl | hp
    · exact ⟨phase', hself, hreleased hp'⟩
    · exact ⟨p, hp, hp'⟩
  · exact h.adds

private theorem inv_stop_running (h : Inv s) (hj : s.stops[j]? = some .start) (hrunning : s.running = true) :
    Inv ({ s with running := false, stopping := true, stopCh := s.stopCh + 1 }.stopTo j .cancelling) := by
  obtain ⟨hloops, hstopping, hstart⟩ := h.running hrunning
  have hself := Pool.mem_set_self (P := Phase) .cancelling hj
  have hold : ∀ (i : Nat) p, (s.stops.set j .cancelling)[i]? = some p → p = .start ∨ i = j ∧ p = .cancelling := by
    intro i p hi
    rcases Pool.getElem?_set_some hi with hself | ⟨-, hi⟩
    · exact .inr hself
    · exact .inl (hstart p (List.mem_of_getElem? hi))
  have hmem : ∀ p ∈ s.stops.set j .cancelling, p = .start ∨ p = .cancelling := by
    intro p hp
    obtain ⟨i, hi⟩ := List.mem_iff_getElem?.1 hp
    exact (hold i p hi).imp_right And.right
  constructor
  · exact h.one
  · exact fun hr => nomatch hr
  · intro _ hall
    exact nomatch hall _ hself
  · show s.stopCh + 1 = 1
    rw [h.stopCh, hstopping]
    rfl
  · exact fun _ => ⟨_, hself, by decide⟩
  · intro i k p q hi hk hp hq
    rcases hold i p hi with rfl | ⟨rfl, -⟩
    · exact nomatch hp
    · rcases hold k q hk with rfl | ⟨rfl, -⟩
      · exact nomatch hq
      · rfl
  · exact fun _ _ _ => hloops
  · exact h.ticked
  · rintro (htickDone | ⟨p, hp, hlate⟩)
    · exact h.ended (.inl htickDone)
    · rcases hmem p hp with rfl | rfl
      · exact nomatch hlate
      · exact nomatch hlate
  · rintro ⟨p, hp, hreleased⟩
    rcases hmem p hp with rfl | rfl
    · exact nomatch hreleased
    · exact nomatch hreleased
  · exact h.closes
  · intro hclosed
    obtain ⟨p, hp, hreleased⟩ := h.closed hclosed
    rw [hstart p hp] at hreleased
    exact nomatch hreleased
  · exact h.adds

/-- When the condition on a `Stop` that finds the module not running is met, the loop has ended and no `Stop` is
before the end of its guest call. -/
theorem Inv.quiet_of_ordered (h : Inv s) (hordered : s.loops = [] ∨ ∃ phase ∈ s.stops, phase.pastShutdown = true) :
    (∀ loop ∈ s.loops, loop = .done) ∧ ∀ phase ∈ s.stops, phase.early = false := by
  rcases hordered with hloops | ⟨phase, hphase, hpast⟩
  · refine ⟨fun loop hloop => absurd (hloops ▸ hloop) List.not_mem_nil, fun phase hphase => ?_⟩
    refine Bool.eq_false_iff.2 fun hearly => h.started phase hphase ?_ hloops
    revert hearly
    cases phase <;> decide
  · have hlate : phase.late = true := by rw [Phase.late, hpast, Bool.or_true]
    refine ⟨h.ended (.inr ⟨phase, hphase, hlate⟩), fun q hq => Bool.eq_false_iff.2 fun hearly => ?_⟩
    cases hreleased : phase.released with
    | true => exact Bool.eq_false_iff.1 (h.quiet ⟨phase, hphase, hreleased⟩ q hq) hearly
    | false =>
      obtain ⟨i, hi⟩ := List.mem_iff_getElem?.1 hphase
      obtain ⟨k, hk⟩ := List.mem_iff_getElem?.1 hq
      have hmain : phase.main = true := by
        revert hpast hreleased
        cases phase <;> decide
      have hmain' : q.main = true := by
        revert hearly
        cases q <;> decide
      obtain rfl := h.main i k phase q hi hk hmain hmain'
      obtain rfl := Option.some.inj (hi.symm.trans hk)
      revert hpast hearly
      cases phase <;> decide

private theorem inv_stop_idle (h : Inv s) (hj : s.stops[j]? = some .start) (hrunning : s.running = false)
    (hordered : s.loops = [] ∨ ∃ phase ∈ s.stops, phase.pastShutdown = true) : Inv (s.stopTo j .releasing) := by
  obtain ⟨hended, hquiet⟩ := h.quiet_of_ordered hordered
  have hself := Pool.mem_set_self (P := Phase) .releasing hj
  have hmem : ∀ p ∈ s.stops.set j .releasing, p = .releasing ∨ p ∈ s.stops :=
    fun p hp => (List.mem_or_eq_of_mem_set hp).symm
  constructor
  · exact h.one
  · exact fun hr => nomatch hrunning.symm.trans hr
  · intro _ hall
    exact nomatch hall _ hself
  · exact h.stopCh
  · exact fun _ => ⟨_, hself, by decide⟩
  · intro i k p q hi hk hp hq
    rcases Pool.getElem?_set_some hi with ⟨-, rfl⟩ | ⟨-, hi⟩
    · exact nomatch hp
    · rcases Pool.getElem?_set_some hk with ⟨-, rfl⟩ | ⟨-, hk⟩
      · exact nomatch hq
      · exact h.main i k p q hi hk hp hq
  · intro p hp hp'
    rcases hmem p hp with rfl | hp
    · exact nomatch hp'
    · exact h.started p hp hp'
  · exact h.ticked
  · exact fun _ => hended
  · intro _ p hp
    rcases hmem p hp with rfl | hp
    · rfl
    · exact hquiet p hp
  · exact h.closes
  · exact fun _ => ⟨_, hself, rfl⟩
  · exact h.adds

private theorem inv_stop {timeout : Bool} {phase : Phase} (h : Inv s) (hj : s.stops[j]? = some phase)
    (hordered : ordered s (.stop j timeout)) (hstep : stopStep s j timeout phase = some s') : Inv s' := by
  have hmem := List.mem_of_getElem? hj
  have hmain : phase.main = true → ∀ (i : Nat) p, i ≠ j → s.stops[i]? = some p → p.early = false := by
    intro hphase i p hne hi
    refine Bool.eq_false_iff.2 fun hearly => hne (h.main i j p phase hi hj ?_ hphase)
    revert hearly
    cases p <;> decide
  cases phase with
  | start =>
    simp only [stopStep] at hstep
    split_ifs at hstep with hrunning
    · obtain rfl := Option.some.inj hstep
      exact inv_stop_running h hj hrunning
    · obtain rfl := Option.some.inj hstep
      have hidle : s.running = false := Bool.eq_false_iff.2 hrunning
      exact inv_stop_idle h hj hidle (hordered hj hidle)
  | cancelling =>
    obtain rfl := Option.some.inj hstep
    exact inv_stopTo h hj (by decide) (fun hlate => nomatch hlate) (fun hreleased => nomatch hreleased)
  | waiting =>
    simp only [stopStep, Option.ite_none_right_eq_some, Option.some.injEq] at hstep
    obtain ⟨htickDone, rfl⟩ := hstep
    exact inv_stopTo h hj (by decide) (fun _ => h.ended (.inl htickDone)) (fun hreleased => nomatch hreleased)
  | calling =>
    obtain rfl := Option.some.inj hstep
    have hended := h.ended (.inr ⟨_, hmem, rfl⟩)
    exact inv_stopTo h hj (by decide) (fun _ => hended) (fun hreleased => nomatch hreleased)
  | outstanding =>
    simp only [stopStep, Option.ite_none_right_eq_some, Option.some.injEq] at hstep
    obtain ⟨-, rfl⟩ := hstep
    have hended := h.ended (.inr ⟨_, hmem, rfl⟩)
    exact inv_stopTo h hj (by decide) (fun _ => hended) (fun hreleased => nomatch hreleased)
  | clearing =>
    obtain rfl := Option.some.inj hstep
    have hended := h.ended (.inr ⟨_, hmem, rfl⟩)
    exact inv_stopTo h hj (by decide) (fun _ => hended) (fun hreleased => nomatch hreleased)
  | closingGateway =>
    obtain rfl := Option.some.inj hstep
    have hended := h.ended (.inr ⟨_, hmem, rfl⟩)
    exact inv_stopTo h hj (by decide) (fun _ => hended)
      (fun _ => hmain rfl)
  | releasing =>
    have hended := h.ended (.inr ⟨_, hmem, rfl⟩)
    have hquiet := h.quiet ⟨_, hmem, rfl⟩
    have hothers : ∀ (i : Nat) p, i ≠ j → s.stops[i]? = some p → p.early = false :=
      fun _ p _ hi => hquiet p (List.mem_of_getElem? hi)
    simp only [stopStep] at hstep
    split_ifs at hstep with hclosed
    · obtain rfl := Option.some.inj hstep
      exact inv_stopTo h hj (by decide) (fun _ => hended)
        (fun _ => hothers)
    · obtain rfl := Option.some.inj hstep
      have hclosing : Inv (s.stopTo j .closing) :=
        inv_stopTo h hj (by decide) (fun _ => hended) (fun _ => hothers)
      have hcloses : s.closes + 1 = 1 := by
        rw [h.closes, Bool.eq_false_iff.2 hclosed]
        rfl
      exact ⟨hclosing.one, hclosing.running, hclosing.idle, hclosing.stopCh, hclosing.stopping, hclosing.main,
        hclosing.started, hclosing.ticked, hclosing.ended, hclosing.quiet, hcloses,
          fun _ => ⟨_, Pool.mem_set_self _ hj, rfl⟩,
        hclosing.adds⟩
  | closing =>
    obtain rfl := Option.some.inj hstep
    have hended := h.ended (.inr ⟨_, hmem, rfl⟩)
    have hquiet := h.quiet ⟨_, hmem, rfl⟩
    exact inv_stopTo h hj (by decide) (fun _ => hended)
      (fun _ _ p _ hi => hquiet p (List.mem_of_getElem? hi))
  | returned => exact nomatch hstep

/-! ### Whole runs -/

/-- A step that touches neither the loops nor the calls of `Stop`. -/
theorem Inv.frame (h : Inv s) (hrunning : s'.running = s.running) (hstopping : s'.stopping = s.stopping)
    (hclosed : s'.closed = s.closed) (hstopCh : s'.stopCh = s.stopCh) (htickDone : s'.tickDone = s.tickDone)
    (hloops : s'.loops = s.loops) (hstops : s'.stops = s.stops) (hcloses : s'.closes = s.closes)
    (hadds : ∀ stopping ∈ s'.adds, stopping = false) : Inv s' := by
  refine ⟨?_, ?_, ?_, ?_, ?_, ?_, ?_, ?_, ?_, ?_, ?_, ?_, hadds⟩
  · rw [hloops]
    exact h.one
  · rw [hrunning, hloops, hstopping, hstops]
    exact h.running
  · rw [hrunning, hstops, hloops]
    exact h.idle
  · rw [hstopCh, hstopping]
    exact h.stopCh
  · rw [hstopping, hstops]
    exact h.stopping
  · rw [hstops]
    exact h.main
  · rw [hstops, hloops]
    exact h.started
  · rw [htickDone, hloops]
    exact h.ticked
  · rw [htickDone, hstops, hloops]
    exact h.ended
  · rw [hstops]
    exact h.quiet
  · rw [hcloses, hclosed]
    exact h.closes
  · rw [hclosed, hstops]
    exact h.closed

/-- `tryAddOutstanding` leaves everything else as it is. -/
private theorem inv_tryAddOutstanding (h : Inv s) : Inv s.tryAddOutstanding := by
  unfold State.tryAddOutstanding
  split_ifs with hstopping
  · exact h
  · refine h.frame rfl rfl rfl rfl rfl rfl rfl rfl fun stopping hmem => ?_
    rcases List.mem_cons.1 hmem with rfl | hmem
    · exact Bool.eq_false_iff.2 hstopping
    · exact h.adds stopping hmem

/-- The first `Start`, or one of a module that runs. -/
private theorem inv_start (h : Inv s) (hordered : s.running = false → ∀ phase ∈ s.stops, phase = .start) :
    Inv s.start := by
  unfold State.start
  split_ifs with hrunning
  · exact h
  · have hidle : s.running = false := Bool.eq_false_iff.2 hrunning
    have hstart := hordered hidle
    have hnone := h.idle hidle hstart
    have hstopping : s.stopping = false := by
      refine Bool.eq_false_iff.2 fun hstopping => ?_
      obtain ⟨phase, hphase, hne⟩ := h.stopping hstopping
      exact hne (hstart phase hphase)
    have hloops : s.loops ++ [.head] ≠ [] := by simp
    refine ⟨?_, fun _ => ⟨hloops, hstopping, hstart⟩, fun hr => (nomatch hr), h.stopCh, h.stopping, h.main,
      fun _ _ _ => hloops, fun _ => hloops, ?_, h.quiet, h.closes, h.closed, h.adds⟩
    · show (s.loops ++ [Loop.head]).length ≤ 1
      rw [hnone]
      exact Nat.le_refl 1
    · rintro (htickDone | ⟨phase, hphase, hlate⟩)
      · exact absurd hnone (h.ticked htickDone)
      · rw [hstart phase hphase] at hlate
        exact nomatch hlate

private theorem inv_callStop (h : Inv s) : Inv { s with stops := s.stops ++ [.start] } := by
  have hmem : ∀ phase ∈ s.stops ++ [.start], phase ∈ s.stops ∨ phase = .start := by
    intro phase hphase
    simpa using hphase
  have hold : ∀ (i : Nat) phase, (s.stops ++ [.start])[i]? = some phase → phase.main = true →
      s.stops[i]? = some phase := by
    intro i phase hi hmain
    rcases Pool.getElem?_concat_some hi with hi | ⟨-, rfl⟩
    · exact hi
    · cases hmain
  refine ⟨h.one, ?_, ?_, h.stopCh, ?_, ?_, ?_, h.ticked, ?_, ?_, h.closes, ?_, h.adds⟩
  · intro hrunning
    obtain ⟨hloops, hstopping, hstart⟩ := h.running hrunning
    exact ⟨hloops, hstopping, fun phase hphase => (hmem phase hphase).elim (hstart phase) id⟩
  · intro hrunning hstart
    exact h.idle hrunning fun phase hphase => hstart phase (List.mem_append_left _ hphase)
  · intro hstopping
    obtain ⟨phase, hphase, hne⟩ := h.stopping hstopping
    exact ⟨phase, List.mem_append_left _ hphase, hne⟩
  · intro i k p q hi hk hp hq
    exact h.main i k p q (hold i p hi hp) (hold k q hk hq) hp hq
  · intro phase hphase hmain
    rcases hmem phase hphase with hphase | rfl
    · exact h.started phase hphase hmain
    · exact nomatch hmain
  · rintro (htickDone | ⟨phase, hphase, hlate⟩)
    · exact h.ended (.inl htickDone)
    · rcases hmem phase hphase with hphase | rfl
      · exact h.ended (.inr ⟨phase, hphase, hlate⟩)
      · exact nomatch hlate
  · rintro ⟨phase, hphase, hreleased⟩ q hq
    rcases hmem phase hphase with hphase | rfl
    · rcases hmem q hq with hq | rfl
      · exact h.quiet ⟨phase, hphase, hreleased⟩ q hq
      · rfl
    · exact nomatch hreleased
  · intro hclosed
    obtain ⟨phase, hphase, hreleased⟩ := h.closed hclosed
    exact ⟨phase, List.mem_append_left _ hphase, hreleased⟩

theorem inv_step {a : Action} (h : Inv s) (hordered : ordered s a) (hstep : step exports s a = some s') : Inv s' := by
  cases a with
  | start =>
    obtain rfl := Option.some.inj hstep
    exact inv_start h hordered
  | loop i choice outcome =>
    obtain ⟨loop, hloop, hstep⟩ := Option.bind_eq_some_iff.1 hstep
    exact inv_loop h hloop hstep
  | query =>
    simp only [step] at hstep
    split_ifs at hstep
    · obtain rfl := Option.some.inj hstep
      exact h
    · obtain rfl := Option.some.inj hstep
      exact h.frame rfl rfl rfl rfl rfl rfl rfl rfl h.adds
  | callSendCommand =>
    simp only [step] at hstep
    split_ifs at hstep
    · obtain rfl := Option.some.inj hstep
      exact h
    · obtain rfl := Option.some.inj hstep
      exact h.frame rfl rfl rfl rfl rfl rfl rfl rfl h.adds
  | sendCommand =>
    simp only [step] at hstep
    split_ifs at hstep
    · obtain rfl := Option.some.inj hstep
      exact h.frame rfl rfl rfl rfl rfl rfl rfl rfl h.adds
    · obtain rfl := Option.some.inj hstep
      have hadd := inv_tryAddOutstanding h
      exact hadd.frame rfl rfl rfl rfl rfl rfl rfl rfl hadd.adds
  | callAsync =>
    obtain rfl := Option.some.inj hstep
    exact inv_tryAddOutstanding h
  | push =>
    simp only [step, Option.ite_none_right_eq_some, Option.some.injEq] at hstep
    obtain ⟨-, rfl⟩ := hstep
    exact h.frame rfl rfl rfl rfl rfl rfl rfl rfl h.adds
  | abandon =>
    simp only [step, Option.ite_none_right_eq_some, Option.some.injEq] at hstep
    obtain ⟨-, rfl⟩ := hstep
    exact h.frame rfl rfl rfl rfl rfl rfl rfl rfl h.adds
  | finish =>
    simp only [step, Option.ite_none_right_eq_some, Option.some.injEq] at hstep
    obtain ⟨-, rfl⟩ := hstep
    exact h.frame rfl rfl rfl rfl rfl rfl rfl rfl h.adds
  | callStop =>
    obtain rfl := Option.some.inj hstep
    exact inv_callStop h
  | stop j timeout =>
    obtain ⟨phase, hphase, hstop⟩ := Option.bind_eq_some_iff.1 hstep
    exact inv_stop h hphase hordered hstop

/-- The protocol is safe in every run in which no `Start` takes effect after a `Stop` has begun, and no `Stop` takes a
module that another one is stopping for one that was never started. -/
theorem stop_safe {as : List Action} (hrun : run (step exports) initial as = some s)
    (hordered : Meets (step exports) ordered initial as) : Safe s := by
  have h₀ : Inv initial := by
    refine ⟨?_, ?_, ?_, ?_, ?_, ?_, ?_, ?_, ?_, ?_, ?_, ?_, ?_⟩ <;> simp [initial]
  exact (run_invariant_of_meets (fun _ _ _ hs hc hstep => inv_step hs hc hstep) h₀ hordered hrun).safe

/-- A tick, a `Stop` during the tick, and a second `Stop` after the first one has called the guest. -/
def inTurn : List Action :=
  [.start, .loop 0 .tick .ok, .loop 0 .tick .ok, .loop 0 .tick .ok, .callStop, .callStop, .stop 0 false, .stop 0 false,
    .loop 0 .tick .interrupted, .loop 0 .stop .ok, .loop 0 .stop .ok, .stop 0 false, .stop 0 false, .stop 1 false,
    .stop 0 false, .stop 0 false, .stop 0 false, .stop 1 false, .stop 0 false, .stop 1 false]

theorem stop_safe_inTurn : ∃ s, run (step ⟨true, false⟩) initial inTurn = some s ∧
    s.stops = [.returned, .returned] ∧ s.closes = 1 ∧ Safe s := by
  obtain ⟨s, hrun, hs⟩ := exists_run (step ⟨true, false⟩) initial inTurn
    (p := fun s => decide (s.stops = [.returned, .returned] ∧ s.closes = 1)) (by decide)
  obtain ⟨hstops, hcloses⟩ := of_decide_eq_true hs
  exact ⟨s, hrun, hstops, hcloses, stop_safe hrun (by decide)⟩

/-- The second `Stop` comes while the first one waits for the end of a tick. -/
def duringTick : List Action :=
  [.start, .loop 0 .tick .ok, .loop 0 .tick .ok, .loop 0 .tick .ok, .callStop, .callStop, .stop 0 false, .stop 0 false,
    .stop 1 false, .stop 1 false]

/-- The plugin is closed while the guest is in the tick. -/
theorem stop_not_safe : ∃ s, run (step ⟨true, false⟩) initial duringTick = some s ∧ ¬Safe s := by
  obtain ⟨s, hrun, hs⟩ := exists_run (step ⟨true, false⟩) initial duringTick
    (p := fun s => decide (s.loops[0]? = some Loop.tick ∧ 0 < s.closes)) (by decide)
  obtain ⟨hloop, hcloses⟩ := of_decide_eq_true hs
  exact ⟨s, hrun, fun h => h.closed hcloses (.loop 0) ⟨_, hloop, rfl⟩⟩

end Noda.Wasm.Stop
