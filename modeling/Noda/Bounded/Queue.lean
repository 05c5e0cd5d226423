import Noda.Lib.Fifo
import Noda.Lib.Pool
import Noda.Lib.Transition

/-!
# The bounded queue

`Push`, `Pop` and `Close` of the queue of the package `bounded`, with any number of calls side by side and contexts that
are cancelled at any time.  What runs under the lock is one step, with its signal; so are the reads of `closed` and of
the context outside of the lock, the `CompareAndSwap` of `Close`, the broadcasts, and what the watcher of a `Pop` does.
A signal wakes any one of the calls that wait.

The queue records what was accepted, rejected, evicted and taken, and by which call.  Every step is an operation on a
bounded FIFO or none (`step_refines`), and a `Pop` that waits while there is something for it to see is about to be
woken (`Inv`).  `Correct` is what this means for a reachable state (`queue_refines_fifo`).
-/

namespace Noda.Bounded

open Transition

inductive Policy where
  | dropNewest
  | dropOldest
  | other (n : Int)
  deriving DecidableEq, Repr

/-- What `New` accepts. -/
structure Config where
  cap : Nat
  cap_pos : 0 < cap
  policy : Policy

/-- Why a `Push` returns: it returns true exactly if the value was accepted. -/
inductive PushResult where
  | accepted
  | full
  | closed
  deriving DecidableEq, Repr

inductive PushPc where
  | start
  | locking
  | returned (result : PushResult)
  deriving DecidableEq, Repr

/-- `slow` is before the first block of the slow path, `woken` before a later one. -/
inductive PopPc (T : Type) where
  | start
  | precheck
  | slow
  | parked
  | woken
  | returned (v : Option T)
  deriving DecidableEq, Repr

/-- The goroutine that a `Pop` starts in the slow path; `fired` is before its broadcast. -/
inductive Watcher where
  | absent
  | waiting
  | fired
  | done
  deriving DecidableEq, Repr

inductive ClosePc where
  | start
  | broadcasting
  | returned
  deriving DecidableEq, Repr

inductive Call (T : Type) where
  | push (v : T) (pc : PushPc)
  | pop (ctx : Nat) (pc : PopPc T) (watcher : Watcher)
  | close (pc : ClosePc)
  deriving DecidableEq, Repr

/-- The fields of the queue, the contexts that are cancelled, the calls, and the record of what has come in and gone
out, each with the number of its call. -/
structure State (T : Type) where
  buf : List T
  closed : Bool
  /-- a `uint64`, which is taken not to overflow -/
  dropped : Nat
  cancelled : List Nat
  calls : List (Call T)
  accepted : List (Nat × T)
  removed : List (T × Option Nat)
  rejected : List Nat
  deriving DecidableEq

variable {T : Type}

def initial : State T := ⟨[], false, 0, [], [], [], [], []⟩

/-- A new call. -/
inductive NewCall (T : Type) where
  | push (v : T)
  | pop (ctx : Nat)
  | close

/-- A new call, the cancellation of a context, a step of a call (`wakes` is the call that a signal wakes), or a step of
the watcher of a call (`stop` is the case of its `select`). -/
inductive Action (T : Type) where
  | call (c : NewCall T)
  | cancel (ctx : Nat)
  | step (i wakes : Nat)
  | watch (i : Nat) (stop : Bool)

def NewCall.begin : NewCall T → Call T
  | .push v => .push v .start
  | .pop ctx => .pop ctx .start .absent
  | .close => .close .start

namespace Call

def isParked : Call T → Bool
  | .pop _ .parked _ => true
  | _ => false

def isWoken : Call T → Bool
  | .pop _ .woken _ => true
  | _ => false

/-- A call that waits is woken. -/
def wake : Call T → Call T
  | .pop ctx .parked w => .pop ctx .woken w
  | c => c

end Call

/-- `cond.Signal`: one call that waits is woken, if there is one. -/
def signal (calls : List (Call T)) (wakes : Nat) : Option (List (Call T)) :=
  match calls[wakes]? with
  | some c =>
    if c.isParked then some (calls.set wakes c.wake) else if calls.any Call.isParked then none else some calls
  | none => if calls.any Call.isParked then none else some calls

/-- `cond.Broadcast`. -/
def broadcast (calls : List (Call T)) : List (Call T) := calls.map Call.wake

namespace State

variable (s : State T)

def setCall (i : Nat) (c : Call T) : State T := { s with calls := s.calls.set i c }

/-- The block of `Push`. -/
def pushBlock (config : Config) (i wakes : Nat) (v : T) : Option (State T) :=
  if s.closed then some (s.setCall i (.push v (.returned .closed)))
  else if s.buf.length < config.cap then
    (signal (s.calls.set i (.push v (.returned .accepted))) wakes).map fun calls =>
      { s with calls := calls, buf := s.buf ++ [v], accepted := s.accepted ++ [(i, v)] }
  else
    match config.policy with
    | .dropOldest =>
      match s.buf with
      | [] => none
      | u :: rest =>
        (signal (s.calls.set i (.push v (.returned .accepted))) wakes).map fun calls =>
          { s with
            calls := calls
            buf := rest ++ [v]
            dropped := s.dropped + 1
            accepted := s.accepted ++ [(i, v)]
            removed := s.removed ++ [(u, none)] }
    | _ =>
      some { s.setCall i (.push v (.returned .full)) with
        dropped := s.dropped + 1
        rejected := s.rejected ++ [i] }

/-- A `Pop` takes the head of the buffer. -/
def take (i ctx : Nat) (w : Watcher) (v : T) (rest : List T) : State T :=
  { s.setCall i (.pop ctx (.returned (some v)) w) with
    buf := rest
    removed := s.removed ++ [(v, some i)] }

/-- A round of the slow path. -/
def popBlock (i ctx : Nat) (w : Watcher) : State T :=
  match s.buf with
  | v :: rest => s.take i ctx w v rest
  | [] =>
    if s.closed then s.setCall i (.pop ctx (.returned none) w)
    else if ctx ∈ s.cancelled then s.setCall i (.pop ctx (.returned none) w)
    else s.setCall i (.pop ctx .parked w)

def popStep (i ctx : Nat) (w : Watcher) : PopPc T → Option (State T)
  | .start =>
    match s.buf with
    | v :: rest => some (s.take i ctx w v rest)
    | [] => some (s.setCall i (.pop ctx (if s.closed then .returned none else .precheck) w))
  | .precheck =>
    if ctx ∈ s.cancelled then some (s.setCall i (.pop ctx (.returned none) w))
    else some (s.setCall i (.pop ctx .slow .waiting))
  | .slow | .woken => some (s.popBlock i ctx w)
  | .parked => none
  | .returned _ => none

def closeStep (i : Nat) : ClosePc → Option (State T)
  | .start =>
    if s.closed then some (s.setCall i (.close .returned))
    else some { s.setCall i (.close .broadcasting) with closed := true }
  | .broadcasting => some { s with calls := broadcast (s.calls.set i (.close .returned)) }
  | .returned => none

def callStep (config : Config) (i wakes : Nat) : Option (State T) :=
  match s.calls[i]? with
  | none => none
  | some (.push v .start) => some (s.setCall i (.push v (if s.closed then .returned .closed else .locking)))
  | some (.push v .locking) => s.pushBlock config i wakes v
  | some (.push _ (.returned _)) => none
  | some (.pop ctx pc w) => s.popStep i ctx w pc
  | some (.close pc) => s.closeStep i pc

/-- The watcher: `ctx.Done()` or `stop`, and then the broadcast. -/
def watchStep (i : Nat) (stop : Bool) : Option (State T) :=
  match s.calls[i]? with
  | some (.pop ctx pc .waiting) =>
    match stop, pc with
    | true, .returned v => some (s.setCall i (.pop ctx (.returned v) .done))
    | true, _ => none
    | false, pc => if ctx ∈ s.cancelled then some (s.setCall i (.pop ctx pc .fired)) else none
  | some (.pop ctx pc .fired) =>
    some { s with calls := broadcast (s.calls.set i (.pop ctx pc .done)) }
  | _ => none

end State

def step (config : Config) (s : State T) : Action T → Option (State T)
  | .call c => some { s with calls := s.calls ++ [c.begin] }
  | .cancel ctx => some { s with cancelled := ctx :: s.cancelled }
  | .step i wakes => s.callStep config i wakes
  | .watch i stop => s.watchStep i stop

/-! ### Waking -/

namespace Call

/-- What the call has put into the buffer. -/
def acceptedLog (i : Nat) : Call T → List (Nat × T)
  | .push v (.returned .accepted) => [(i, v)]
  | _ => []

def rejectedLog (i : Nat) : Call T → List Nat
  | .push _ (.returned .full) => [i]
  | _ => []

/-- What the call has taken out of it. -/
def removedLog (i : Nat) : Call T → List (T × Option Nat)
  | .pop _ (.returned (some v)) _ => [(v, some i)]
  | _ => []

/-- What is known of a call alone.  A `Pop` in the slow path has a watcher, which has not seen the cancellation of its
context unless that has come; it waits only while the watcher has not yet broadcast. -/
def Ok (closed : Bool) (cancelled : List Nat) : Call T → Prop
  | .push _ _ => True
  | .pop _ .start _ => True
  | .pop _ .precheck _ => True
  | .pop ctx .slow w => w = .waiting ∨ ctx ∈ cancelled
  | .pop ctx .woken w => w = .waiting ∨ ctx ∈ cancelled
  | .pop ctx .parked w => w = .waiting ∨ w = .fired ∧ ctx ∈ cancelled
  | .pop _ (.returned _) _ => True
  | .close .start => True
  | .close .broadcasting => closed = true
  | .close .returned => closed = true

variable {closed : Bool} {cancelled : List Nat} {c : Call T}

private theorem eq_of_isParked (h : c.isParked = true) : ∃ ctx w, c = .pop ctx .parked w := by
  unfold isParked at h
  split at h
  · exact ⟨_, _, rfl⟩
  · cases h

private theorem wake_of_not_isParked (h : c.isParked = false) : c.wake = c := by
  unfold wake
  split
  · cases h
  · rfl

@[simp] theorem isParked_wake : c.wake.isParked = false := by
  cases h : c.isParked with
  | true =>
    obtain ⟨ctx, w, rfl⟩ := eq_of_isParked h
    rfl
  | false => rw [wake_of_not_isParked h, h]

private theorem isWoken_wake (h : c.isParked = true) : c.wake.isWoken = true ∧ c.isWoken = false := by
  obtain ⟨ctx, w, rfl⟩ := eq_of_isParked h
  exact ⟨rfl, rfl⟩

private theorem logs_wake (i : Nat) : c.wake.acceptedLog i = c.acceptedLog i ∧ c.wake.rejectedLog i = c.rejectedLog i ∧
    c.wake.removedLog i = c.removedLog i := by
  cases h : c.isParked with
  | true =>
    obtain ⟨ctx, w, rfl⟩ := eq_of_isParked h
    exact ⟨rfl, rfl, rfl⟩
  | false => rw [wake_of_not_isParked h]; exact ⟨rfl, rfl, rfl⟩

/-- What is known of a call stays so when the queue is closed or a context is cancelled. -/
theorem Ok.mono {closed' : Bool} {cancelled' : List Nat} (h : c.Ok closed cancelled)
    (hclosed : closed = true → closed' = true) (hcancelled : ∀ ctx ∈ cancelled, ctx ∈ cancelled') :
    c.Ok closed' cancelled' := by
  unfold Ok at h ⊢
  split at h
  · trivial
  · trivial
  · trivial
  · exact h.imp_right (hcancelled _)
  · exact h.imp_right (hcancelled _)
  · exact h.imp_right fun hw => ⟨hw.1, hcancelled _ hw.2⟩
  · trivial
  · trivial
  · exact hclosed h
  · exact hclosed h

theorem Ok.wake (h : c.Ok closed cancelled) : c.wake.Ok closed cancelled := by
  cases hp : c.isParked with
  | true =>
    obtain ⟨ctx, w, rfl⟩ := eq_of_isParked hp
    exact h.imp_right And.right
  | false => rwa [wake_of_not_isParked hp]

end Call

/-- Some of the calls that wait are woken. -/
def Wakes (calls calls' : List (Call T)) : Prop :=
  ∀ k : Nat, calls'[k]? = calls[k]? ∨ calls'[k]? = (calls[k]?).map Call.wake

theorem wakes_broadcast (calls : List (Call T)) : Wakes calls (broadcast calls) :=
  fun _ => .inr (List.getElem?_map ..)

private theorem signal_cases {calls calls' : List (Call T)} {wakes : Nat} (h : signal calls wakes = some calls') :
    (∃ c, calls[wakes]? = some c ∧ c.isParked = true ∧ calls' = calls.set wakes c.wake) ∨
    ((∀ c ∈ calls, c.isParked = false) ∧ calls' = calls) := by
  have hnobody : calls.any Call.isParked = false → ∀ c ∈ calls, c.isParked = false := by
    intro hany c hc
    exact Bool.eq_false_iff.2 fun hp => by
      rw [List.any_eq_false] at hany
      exact hany c hc hp
  unfold signal at h
  split at h
  · rename_i c hc
    split_ifs at h with hp hany
    · cases h
      exact .inl ⟨c, hc, hp, rfl⟩
    · cases h
      exact .inr ⟨hnobody (Bool.eq_false_iff.2 hany), rfl⟩
  · split_ifs at h with hany
    cases h
    exact .inr ⟨hnobody (Bool.eq_false_iff.2 hany), rfl⟩

theorem wakes_signal {calls calls' : List (Call T)} {wakes : Nat} (h : signal calls wakes = some calls') :
    Wakes calls calls' := by
  obtain ⟨c, hc, -, rfl⟩ | ⟨-, rfl⟩ := signal_cases h
  · intro k
    by_cases hk : wakes = k
    · subst hk
      rw [List.getElem?_set_self (List.getElem?_eq_some_iff.1 hc).1, hc]
      exact .inr rfl
    · rw [List.getElem?_set_ne hk]
      exact .inl rfl
  · exact fun k => .inl rfl

section

variable {calls calls' : List (Call T)}

/-- A call after some are woken is one from before, or one of them that was woken. -/
theorem Wakes.mem (h : Wakes calls calls') {c : Call T} (hc : c ∈ calls') : ∃ c' ∈ calls, c = c' ∨ c = c'.wake := by
  obtain ⟨k, hk⟩ := List.mem_iff_getElem?.1 hc
  rcases h k with heq | heq
  · rw [heq] at hk
    exact ⟨c, List.mem_of_getElem? hk, .inl rfl⟩
  · rw [heq] at hk
    obtain ⟨c', hc', rfl⟩ := Option.map_eq_some_iff.1 hk
    exact ⟨c', List.mem_of_getElem? hc', .inr rfl⟩

theorem Wakes.parked (h : Wakes calls calls') {c : Call T} (hc : c ∈ calls') (hp : c.isParked = true) : c ∈ calls := by
  obtain ⟨c', hc', rfl | rfl⟩ := h.mem hc
  · exact hc'
  · simp at hp

theorem Wakes.broadcasting (h : Wakes calls calls') (hc : Call.close .broadcasting ∈ calls) :
    Call.close .broadcasting ∈ calls' := by
  obtain ⟨k, hk⟩ := List.mem_iff_getElem?.1 hc
  have heq : calls'[k]? = some (.close .broadcasting) := by
    rcases h k with heq | heq
    · rw [heq, hk]
    · rw [heq, hk]
      rfl
  exact List.mem_of_getElem? heq

theorem Wakes.logOf (h : Wakes calls calls') (i : Nat) :
    Pool.logOf Call.acceptedLog calls' i = Pool.logOf Call.acceptedLog calls i ∧
    Pool.logOf Call.rejectedLog calls' i = Pool.logOf Call.rejectedLog calls i ∧
    Pool.logOf Call.removedLog calls' i = Pool.logOf Call.removedLog calls i := by
  unfold Pool.logOf
  rcases h i with heq | heq
  · rw [heq]
    exact ⟨rfl, rfl, rfl⟩
  · rw [heq]
    cases calls[i]? with
    | none => exact ⟨rfl, rfl, rfl⟩
    | some c => exact Call.logs_wake i

end

/-! ### The invariant -/

/-- The queue as a bounded FIFO. -/
def State.fifo (s : State T) : Fifo.Queue T := ⟨s.buf, s.accepted, s.removed, s.rejected⟩

/-- The part of the invariant that does not depend on who is woken. -/
structure Base (config : Config) (s : State T) : Prop where
  fifo : Fifo.Ok config.cap s.fifo
  policy : config.policy ≠ .dropOldest → s.fifo.evicted = []
  drops : s.dropped = s.rejected.length + s.fifo.evicted.length
  accepted : Pool.Logged (fun e => some e.1) Call.acceptedLog s.accepted s.calls
  rejected : Pool.Logged some Call.rejectedLog s.rejected s.calls
  removed : Pool.Logged Prod.snd Call.removedLog s.removed s.calls
  calls : ∀ c ∈ s.calls, c.Ok s.closed s.cancelled
  /-- a closed queue on which a call waits has a `Close` that is about to wake it -/
  closing : s.closed = true → ∀ c ∈ s.calls, c.isParked = true → Call.close .broadcasting ∈ s.calls

/-- While a call waits, there is a woken one for each value of the buffer. -/
structure Inv (config : Config) (s : State T) : Prop extends Base config s where
  waking : ∀ c ∈ s.calls, c.isParked = true → s.buf.length ≤ s.calls.countP Call.isWoken

section

variable {config : Config} {s : State T} {i : Nat} {c c' : Call T}

theorem Base.wakes (h : Base config s) {calls' : List (Call T)} (hw : Wakes s.calls calls') :
    Base config { s with calls := calls' } where
  fifo := h.fifo
  policy := h.policy
  drops := h.drops
  accepted := h.accepted.congr fun i => (hw.logOf i).1
  rejected := h.rejected.congr fun i => (hw.logOf i).2.1
  removed := h.removed.congr fun i => (hw.logOf i).2.2
  calls := by
    intro d hd
    obtain ⟨d', hd', rfl | rfl⟩ := hw.mem hd
    · exact h.calls d hd'
    · exact (h.calls d' hd').wake
  closing := by
    intro hclosed d hd hp
    exact hw.broadcasting (h.closing hclosed d (hw.parked hd hp) hp)

/-- A call goes on and wakes all that wait. -/
theorem Inv.broadcast (h : Inv config s) (hi : s.calls[i]? = some c)
    (hlogs : ∀ i, c'.acceptedLog i = c.acceptedLog i ∧ c'.rejectedLog i = c.rejectedLog i ∧
      c'.removedLog i = c.removedLog i)
    (hok : c.Ok s.closed s.cancelled → c'.wake.Ok s.closed s.cancelled) :
    Inv config { s with calls := broadcast (s.calls.set i c') } := by
  have hwakes := wakes_broadcast (s.calls.set i c')
  have hnobody : ∀ d ∈ Bounded.broadcast (s.calls.set i c'), d.isParked = false := by
    intro d hd
    obtain ⟨d', -, rfl⟩ := List.mem_map.1 hd
    exact Call.isParked_wake
  exact {
    fifo := h.fifo
    policy := h.policy
    drops := h.drops
    accepted := (h.accepted.set hi (hlogs i).1).congr fun k => (hwakes.logOf k).1
    rejected := (h.rejected.set hi (hlogs i).2.1).congr fun k => (hwakes.logOf k).2.1
    removed := (h.removed.set hi (hlogs i).2.2).congr fun k => (hwakes.logOf k).2.2
    calls := by
      intro d hd
      obtain ⟨d', hd', rfl⟩ := List.mem_map.1 hd
      rcases List.mem_or_eq_of_mem_set hd' with hd' | rfl
      · exact (h.calls d' hd').wake
      · exact hok (h.calls c (List.mem_of_getElem? hi))
    closing := fun _ d hd hp => absurd (hp.symm.trans (hnobody d hd)) (by decide)
    waking := fun d hd hp => absurd (hp.symm.trans (hnobody d hd)) (by decide) }

/-- What a call does to the queue when it goes on: it makes no entry in the record. -/
structure Moves (s : State T) (c c' : Call T) : Prop where
  accepted : ∀ i, c'.acceptedLog i = c.acceptedLog i
  rejected : ∀ i, c'.rejectedLog i = c.rejectedLog i
  removed : ∀ i, c'.removedLog i = c.removedLog i
  ok : c.Ok s.closed s.cancelled → c'.Ok s.closed s.cancelled
  parked : c'.isParked = true → c.isParked = true ∨ s.buf = [] ∧ s.closed = false
  woken : c.isWoken = true → c'.isWoken = true ∨ s.buf = []
  closing : c ≠ .close .broadcasting

/-- A call that has made no entry goes on, and neither waits nor was woken. -/
private theorem moves_of_idle (hc : ∀ i, c.acceptedLog i = [] ∧ c.rejectedLog i = [] ∧ c.removedLog i = [])
    (hc' : ∀ i, c'.acceptedLog i = [] ∧ c'.rejectedLog i = [] ∧ c'.removedLog i = []) (hwoken : c.isWoken = false)
    (hparked : c'.isParked = false) (hok : c'.Ok s.closed s.cancelled) (hclosing : c ≠ .close .broadcasting) :
    Moves s c c' where
  accepted := fun i => (hc' i).1.trans (hc i).1.symm
  rejected := fun i => (hc' i).2.1.trans (hc i).2.1.symm
  removed := fun i => (hc' i).2.2.trans (hc i).2.2.symm
  ok := fun _ => hok
  parked := fun hp => absurd (hp.symm.trans hparked) (by decide)
  woken := fun hw => absurd (hw.symm.trans hwoken) (by decide)
  closing := hclosing

/-- A `Pop` that has found the buffer empty goes on. -/
private theorem moves_of_empty {ctx : Nat} {pc pc' : PopPc T} {w w' : Watcher} (hbuf : s.buf = [])
    (hpc : ∀ v, pc ≠ .returned v) (hpc' : ∀ v, pc' ≠ .returned (some v))
    (hok : Call.Ok s.closed s.cancelled (.pop ctx pc w) → Call.Ok s.closed s.cancelled (.pop ctx pc' w'))
    (hparked : pc' = .parked → s.closed = false) :
    Moves s (.pop ctx pc w) (.pop ctx pc' w') where
  accepted := fun _ => rfl
  rejected := fun _ => rfl
  removed := by
    intro i
    have hold : Call.removedLog i (.pop ctx pc w) = [] := by
      cases pc with
      | returned u => exact absurd rfl (hpc u)
      | _ => rfl
    rw [hold]
    cases pc' with
    | returned u =>
      cases u with
      | none => rfl
      | some v => exact absurd rfl (hpc' v)
    | _ => rfl
  ok := hok
  parked := by
    intro hp
    obtain ⟨_, _, heq⟩ := Call.eq_of_isParked hp
    cases heq
    exact .inr ⟨hbuf, hparked rfl⟩
  woken := fun _ => .inr hbuf
  closing := by simp

/-- The part of the calls in the invariant, after one call is replaced. -/
theorem Base.calls_set (h : Base config s) (hi : s.calls[i]? = some c) (c' : Call T) (hok : c'.Ok s.closed s.cancelled)
    (hparked : c'.isParked = true → c.isParked = true ∨ s.closed = false) (hc : c ≠ .close .broadcasting) :
    (∀ d ∈ s.calls.set i c', d.Ok s.closed s.cancelled) ∧
    (s.closed = true → ∀ d ∈ s.calls.set i c', d.isParked = true → Call.close .broadcasting ∈ s.calls.set i c') := by
  constructor
  · intro d hd
    rcases List.mem_or_eq_of_mem_set hd with hd | rfl
    · exact h.calls d hd
    · exact hok
  · intro hclosed d hd hp
    have hold : ∃ d ∈ s.calls, d.isParked = true := by
      rcases List.mem_or_eq_of_mem_set hd with hd | rfl
      · exact ⟨d, hd, hp⟩
      · rcases hparked hp with hp | hopen
        · exact ⟨c, List.mem_of_getElem? hi, hp⟩
        · exact absurd (hopen.symm.trans hclosed) (by decide)
    obtain ⟨d', hd', hp'⟩ := hold
    exact (Pool.mem_set_of_mem c' hi (h.closing hclosed d' hd' hp')).resolve_left (Ne.symm hc)

/-- As many calls are woken after one is replaced, unless it was woken itself. -/
private theorem countP_woken_le {calls : List (Call T)} (c' : Call T) (hi : calls[i]? = some c)
    (hw : c.isWoken = true → c'.isWoken = true) :
    calls.countP Call.isWoken ≤ (calls.set i c').countP Call.isWoken := by
  have hcount := Pool.countP_set Call.isWoken hi c'
  by_cases hc : c.isWoken = true
  · rw [if_pos hc, if_pos (hw hc)] at hcount
    omega
  · rw [if_neg hc] at hcount
    omega

theorem Inv.move (h : Inv config s) (hi : s.calls[i]? = some c) (hm : Moves s c c') :
    Inv config (s.setCall i c') := by
  obtain ⟨hcalls, hclosing⟩ := h.calls_set hi c' (hm.ok (h.calls c (List.mem_of_getElem? hi)))
    (fun hp => (hm.parked hp).imp_right And.right) hm.closing
  exact {
    fifo := h.fifo
    policy := h.policy
    drops := h.drops
    accepted := h.accepted.set hi (hm.accepted i)
    rejected := h.rejected.set hi (hm.rejected i)
    removed := h.removed.set hi (hm.removed i)
    calls := hcalls
    closing := hclosing
    waking := by
      intro d hd hp
      by_cases hbuf : s.buf = []
      · show s.buf.length ≤ _
        rw [hbuf]
        exact Nat.zero_le _
      · have hold : ∃ d ∈ s.calls, d.isParked = true := by
          rcases List.mem_or_eq_of_mem_set hd with hd | rfl
          · exact ⟨d, hd, hp⟩
          · exact ⟨c, List.mem_of_getElem? hi, (hm.parked hp).resolve_right fun hempty => hbuf hempty.1⟩
        obtain ⟨d', hd', hp'⟩ := hold
        exact Nat.le_trans (h.waking d' hd' hp') (countP_woken_le _ hi fun hw => (hm.woken hw).resolve_right hbuf) }

theorem Inv.take (h : Inv config s) {ctx : Nat} {pc : PopPc T} {w : Watcher} {v : T} {rest : List T}
    (hi : s.calls[i]? = some (.pop ctx pc w)) (hpc : ∀ u, pc ≠ .returned u) (hbuf : s.buf = v :: rest)
    (hfifo : Fifo.Ok config.cap (s.take i ctx w v rest).fifo) : Inv config (s.take i ctx w v rest) := by
  obtain ⟨hcalls, hclosing⟩ := h.calls_set hi (.pop ctx (.returned (some v)) w) trivial
    (fun hp => absurd hp (by simp [Call.isParked])) (by simp)
  have hlog : Call.removedLog i (.pop ctx pc w) = [] := by
    cases pc with
    | returned u => exact absurd rfl (hpc u)
    | _ => rfl
  have hevicted : (s.take i ctx w v rest).fifo.evicted = s.fifo.evicted := by
    simp [Fifo.Queue.evicted, State.fifo, State.take, List.filter_append]
  exact {
    fifo := hfifo
    policy := fun hp => hevicted.trans (h.policy hp)
    drops := by rw [hevicted]; exact h.drops
    accepted := h.accepted.set hi rfl
    rejected := h.rejected.set hi rfl
    removed := h.removed.add hi hlog rfl rfl
    calls := hcalls
    closing := hclosing
    waking := by
      intro d hd hp
      have hold : d ∈ s.calls := (List.mem_or_eq_of_mem_set hd).resolve_right fun heq => by
        rw [heq] at hp
        cases hp
      have hwoken := h.waking d hold hp
      have hcount := Pool.countP_set Call.isWoken hi (.pop ctx (.returned (some v)) w)
      rw [hbuf, List.length_cons] at hwoken
      show rest.length ≤ (s.calls.set i (.pop ctx (.returned (some v)) w)).countP Call.isWoken
      simp only [show Call.isWoken (.pop ctx (.returned (some v)) w) = false from rfl] at hcount
      split_ifs at hcount <;> omega }

/-- After a signal there is a woken call for one more value. -/
private theorem waking_signal (h : Inv config s) {v : T} {calls' : List (Call T)} {wakes n : Nat}
    (hi : s.calls[i]? = some (.push v .locking))
    (hsignal : signal (s.calls.set i (.push v (.returned .accepted))) wakes = some calls')
    (hn : n ≤ s.buf.length + 1) : ∀ c ∈ calls', c.isParked = true → n ≤ calls'.countP Call.isWoken := by
  intro d hd hp
  obtain ⟨d', hd', hp', rfl⟩ | ⟨hnobody, rfl⟩ := signal_cases hsignal
  · have hmem : d' ∈ s.calls := (List.mem_or_eq_of_mem_set (List.mem_of_getElem? hd')).resolve_right fun heq => by
      rw [heq] at hp'
      cases hp'
    have hwoken := h.waking d' hmem hp'
    have hpush := countP_woken_le (.push v (.returned .accepted)) hi (fun hw => by cases hw)
    have hcount := Pool.countP_set Call.isWoken hd' d'.wake
    obtain ⟨hwake, hnot⟩ := Call.isWoken_wake hp'
    simp only [hwake, hnot, if_true, Bool.false_eq_true, if_false] at hcount
    omega
  · exact absurd (hp.symm.trans (hnobody d hd)) (by decide)

/-- A value is accepted, at the end of a buffer that is not full or for the head of one that is. -/
theorem Inv.accept (h : Inv config s) {v : T} {buf' : List T} {removed' : List (T × Option Nat)} {dropped' wakes : Nat}
    {calls' : List (Call T)} (hi : s.calls[i]? = some (.push v .locking))
    (hsignal : signal (s.calls.set i (.push v (.returned .accepted))) wakes = some calls')
    (hfifo : Fifo.Ok config.cap ⟨buf', s.accepted ++ [(i, v)], removed', s.rejected⟩)
    (hbuf : buf'.length ≤ s.buf.length + 1)
    (hremoved : removed' = s.removed ∧ dropped' = s.dropped ∨
      ∃ u, removed' = s.removed ++ [(u, none)] ∧ dropped' = s.dropped + 1 ∧ config.policy = .dropOldest) :
    Inv config { s with
      calls := calls', buf := buf', accepted := s.accepted ++ [(i, v)], removed := removed', dropped := dropped' } := by
  obtain ⟨hcalls, hclosing⟩ := h.calls_set hi (.push v (.returned .accepted)) trivial (fun hp => by cases hp) (by simp)
  have hbase : Base config { s with
      calls := s.calls.set i (.push v (.returned .accepted)), buf := buf', accepted := s.accepted ++ [(i, v)],
      removed := removed', dropped := dropped' } := {
    fifo := hfifo
    policy := by
      intro hp
      rcases hremoved with ⟨rfl, -⟩ | ⟨u, -, -, hpolicy⟩
      · exact h.policy hp
      · exact absurd hpolicy hp
    drops := by
      have hdrops := h.drops
      rcases hremoved with ⟨rfl, rfl⟩ | ⟨u, rfl, rfl, -⟩
      · exact hdrops
      · simp only [State.fifo, Fifo.Queue.evicted, List.filter_append, List.length_map, List.length_append] at hdrops ⊢
        simp
        omega
    accepted := h.accepted.add hi rfl rfl rfl
    rejected := h.rejected.set hi rfl
    removed := by
      rcases hremoved with ⟨rfl, -⟩ | ⟨u, rfl, -, -⟩
      · exact h.removed.set hi rfl
      · have hset : Pool.Logged Prod.snd Call.removedLog s.removed (s.calls.set i (.push v (.returned .accepted))) :=
          h.removed.set hi rfl
        exact hset.skip rfl
    calls := hcalls
    closing := hclosing }
  exact { hbase.wakes (wakes_signal hsignal) with waking := waking_signal h hi hsignal hbuf }

theorem Inv.reject (h : Inv config s) {v : T} (hi : s.calls[i]? = some (.push v .locking)) : Inv config
    { s.setCall i (.push v (.returned .full)) with dropped := s.dropped + 1, rejected := s.rejected ++ [i] } := by
  obtain ⟨hcalls, hclosing⟩ := h.calls_set hi (.push v (.returned .full)) trivial (fun hp => by cases hp) (by simp)
  exact {
    fifo := ⟨h.fifo.bounded, h.fifo.order⟩
    policy := h.policy
    drops := by
      have hdrops := h.drops
      simp only [State.fifo, State.setCall, Fifo.Queue.evicted, List.length_append, List.length_singleton] at hdrops ⊢
      omega
    accepted := h.accepted.set hi rfl
    rejected := h.rejected.add hi rfl rfl rfl
    removed := h.removed.set hi rfl
    calls := hcalls
    closing := hclosing
    waking := by
      intro d hd hp
      have hold : d ∈ s.calls := (List.mem_or_eq_of_mem_set hd).resolve_right fun heq => by
        rw [heq] at hp
        cases hp
      exact Nat.le_trans (h.waking d hold hp) (countP_woken_le _ hi fun hw => by cases hw) }

/-- `Close` sets the flag. -/
theorem Inv.setClosed (h : Inv config s) (hi : s.calls[i]? = some (.close .start)) :
    Inv config { s.setCall i (.close .broadcasting) with closed := true } where
  fifo := h.fifo
  policy := h.policy
  drops := h.drops
  accepted := h.accepted.set hi rfl
  rejected := h.rejected.set hi rfl
  removed := h.removed.set hi rfl
  calls := by
    intro d hd
    rcases List.mem_or_eq_of_mem_set hd with hd | rfl
    · exact (h.calls d hd).mono (fun _ => rfl) fun _ hctx => hctx
    · rfl
  closing := fun _ _ _ _ => Pool.mem_set_self _ hi
  waking := by
    intro d hd hp
    have hold : d ∈ s.calls := (List.mem_or_eq_of_mem_set hd).resolve_right fun heq => by
      rw [heq] at hp
      cases hp
    exact Nat.le_trans (h.waking d hold hp) (countP_woken_le _ hi fun hw => by cases hw)

theorem Inv.cancel (h : Inv config s) (ctx : Nat) : Inv config { s with cancelled := ctx :: s.cancelled } where
  fifo := h.fifo
  policy := h.policy
  drops := h.drops
  accepted := h.accepted
  rejected := h.rejected
  removed := h.removed
  calls := fun d hd => (h.calls d hd).mono id fun _ hctx => List.mem_cons_of_mem _ hctx
  closing := h.closing
  waking := h.waking

theorem Inv.call (h : Inv config s) (c : NewCall T) : Inv config { s with calls := s.calls ++ [c.begin] } := by
  have hparked : c.begin.isParked = false := by cases c <;> rfl
  have hwoken : c.begin.isWoken = false := by cases c <;> rfl
  have hold : ∀ d ∈ s.calls ++ [c.begin], d.isParked = true → d ∈ s.calls := by
    intro d hd hp
    rcases List.mem_append.1 hd with hd | hd
    · exact hd
    · rw [List.mem_singleton.1 hd, hparked] at hp
      cases hp
  exact {
    fifo := h.fifo
    policy := h.policy
    drops := h.drops
    accepted := h.accepted.concat (by cases c <;> rfl)
    rejected := h.rejected.concat (by cases c <;> rfl)
    removed := h.removed.concat (by cases c <;> rfl)
    calls := by
      intro d hd
      rcases List.mem_append.1 hd with hd | hd
      · exact h.calls d hd
      · rw [List.mem_singleton.1 hd]
        cases c <;> exact trivial
    closing := fun hclosed d hd hp => List.mem_append_left _ (h.closing hclosed d (hold d hd hp) hp)
    waking := by
      intro d hd hp
      have hle := h.waking d (hold d hd hp) hp
      simpa [List.countP_append, hwoken] using hle }

/-! ### The steps -/

theorem inv_initial (config : Config) : Inv config (initial : State T) where
  fifo := Fifo.ok_empty config.cap
  policy := fun _ => rfl
  drops := rfl
  accepted := fun _ => rfl
  rejected := fun _ => rfl
  removed := fun _ => rfl
  calls := by intro c hc; cases hc
  closing := by intro _ c hc; cases hc
  waking := by intro c hc; cases hc

/-- What a step may do. -/
inductive Effect (config : Config) (s : State T) : State T → Prop where
  | call (c : NewCall T) : Effect config s { s with calls := s.calls ++ [c.begin] }
  | cancel (ctx : Nat) : Effect config s { s with cancelled := ctx :: s.cancelled }
  | move {i : Nat} {c c' : Call T} (hi : s.calls[i]? = some c) (hm : Moves s c c') : Effect config s (s.setCall i c')
  | take {i ctx : Nat} {pc : PopPc T} {w : Watcher} {v : T} {rest : List T} (hi : s.calls[i]? = some (.pop ctx pc w))
      (hpc : ∀ u, pc ≠ .returned u) (hbuf : s.buf = v :: rest) : Effect config s (s.take i ctx w v rest)
  | accept {i wakes : Nat} {v : T} {calls' : List (Call T)} (hi : s.calls[i]? = some (.push v .locking))
      (hopen : s.closed = false) (hroom : s.buf.length < config.cap)
      (hsignal : signal (s.calls.set i (.push v (.returned .accepted))) wakes = some calls') :
      Effect config s { s with calls := calls', buf := s.buf ++ [v], accepted := s.accepted ++ [(i, v)] }
  | evict {i wakes : Nat} {v u : T} {rest : List T} {calls' : List (Call T)}
      (hi : s.calls[i]? = some (.push v .locking)) (hopen : s.closed = false) (hfull : config.cap ≤ s.buf.length)
      (hpolicy : config.policy = .dropOldest) (hbuf : s.buf = u :: rest)
      (hsignal : signal (s.calls.set i (.push v (.returned .accepted))) wakes = some calls') :
      Effect config s { s with
        calls := calls'
        buf := rest ++ [v]
        dropped := s.dropped + 1
        accepted := s.accepted ++ [(i, v)]
        removed := s.removed ++ [(u, none)] }
  | reject {i : Nat} {v : T} (hi : s.calls[i]? = some (.push v .locking)) (hfull : config.cap ≤ s.buf.length) :
      Effect config s
        { s.setCall i (.push v (.returned .full)) with dropped := s.dropped + 1, rejected := s.rejected ++ [i] }
  | setClosed {i : Nat} (hi : s.calls[i]? = some (.close .start)) :
      Effect config s { s.setCall i (.close .broadcasting) with closed := true }
  | broadcast {i : Nat} {c c' : Call T} (hi : s.calls[i]? = some c)
      (hlogs : ∀ i, c'.acceptedLog i = c.acceptedLog i ∧ c'.rejectedLog i = c.rejectedLog i ∧
        c'.removedLog i = c.removedLog i)
      (hok : c.Ok s.closed s.cancelled → c'.wake.Ok s.closed s.cancelled) :
      Effect config s { s with calls := broadcast (s.calls.set i c') }

private theorem pushBlock_effect {s' : State T} {v : T} {wakes : Nat} (hi : s.calls[i]? = some (.push v .locking))
    (hstep : s.pushBlock config i wakes v = some s') : Effect config s s' := by
  unfold State.pushBlock at hstep
  split_ifs at hstep with hclosed hroom
  · cases hstep
    exact .move hi (moves_of_idle (fun _ => ⟨rfl, rfl, rfl⟩) (fun _ => ⟨rfl, rfl, rfl⟩) rfl rfl trivial (by simp))
  · obtain ⟨calls', hsignal, rfl⟩ := Option.map_eq_some_iff.1 hstep
    exact .accept hi (Bool.eq_false_iff.2 hclosed) hroom hsignal
  · have hfull : config.cap ≤ s.buf.length := Nat.le_of_not_lt hroom
    split at hstep
    · rename_i hpolicy
      cases hbuf : s.buf with
      | nil =>
        rw [hbuf] at hstep
        cases hstep
      | cons u rest =>
        rw [hbuf] at hstep
        obtain ⟨calls', hsignal, rfl⟩ := Option.map_eq_some_iff.1 hstep
        exact .evict hi (Bool.eq_false_iff.2 hclosed) hfull hpolicy hbuf hsignal
    · cases hstep
      exact .reject hi hfull

private theorem popBlock_effect {ctx : Nat} {pc : PopPc T} {w : Watcher} (hi : s.calls[i]? = some (.pop ctx pc w))
    (hpc : pc = .slow ∨ pc = .woken) : Effect config s (s.popBlock i ctx w) := by
  have hrunning : ∀ v, pc ≠ .returned v := by
    rintro v rfl
    rcases hpc with hpc | hpc <;> cases hpc
  unfold State.popBlock
  cases hbuf : s.buf with
  | cons v rest => exact .take hi hrunning hbuf
  | nil =>
    simp only
    split_ifs with hclosed hcancelled
    · exact .move hi (moves_of_empty hbuf hrunning (by simp) (fun _ => trivial) (by simp))
    · exact .move hi (moves_of_empty hbuf hrunning (by simp) (fun _ => trivial) (by simp))
    · -- the watcher of a context that is not cancelled still waits
      refine .move hi (moves_of_empty hbuf hrunning (by simp) (fun hok => ?_) fun _ => Bool.eq_false_iff.2 hclosed)
      rcases hpc with rfl | rfl
      · exact .inl (Or.resolve_right hok hcancelled)
      · exact .inl (Or.resolve_right hok hcancelled)

private theorem popStep_effect {s' : State T} {ctx : Nat} {pc : PopPc T} {w : Watcher}
    (hi : s.calls[i]? = some (.pop ctx pc w)) (hstep : s.popStep i ctx w pc = some s') : Effect config s s' := by
  cases pc with
  | start =>
    unfold State.popStep at hstep
    cases hbuf : s.buf with
    | cons v rest =>
      rw [hbuf] at hstep
      cases hstep
      exact .take hi (by simp) hbuf
    | nil =>
      rw [hbuf] at hstep
      cases hstep
      split_ifs with hclosed
      · exact .move hi (moves_of_empty hbuf (by simp) (by simp) (fun _ => trivial) (by simp))
      · exact .move hi (moves_of_empty hbuf (by simp) (by simp) (fun _ => trivial) (by simp))
  | precheck =>
    simp only [State.popStep] at hstep
    split_ifs at hstep with hcancelled
    · cases hstep
      exact .move hi (moves_of_idle (fun _ => ⟨rfl, rfl, rfl⟩) (fun _ => ⟨rfl, rfl, rfl⟩) rfl rfl trivial (by simp))
    · cases hstep
      exact .move hi
        (moves_of_idle (fun _ => ⟨rfl, rfl, rfl⟩) (fun _ => ⟨rfl, rfl, rfl⟩) rfl rfl (.inl rfl) (by simp))
  | slow =>
    cases hstep
    exact popBlock_effect hi (.inl rfl)
  | woken =>
    cases hstep
    exact popBlock_effect hi (.inr rfl)
  | parked => cases hstep
  | returned v => cases hstep

private theorem closeStep_effect {s' : State T} {pc : ClosePc} (hi : s.calls[i]? = some (.close pc))
    (hstep : s.closeStep i pc = some s') : Effect config s s' := by
  cases pc with
  | start =>
    simp only [State.closeStep] at hstep
    split_ifs at hstep with hclosed
    · cases hstep
      exact .move hi (moves_of_idle (fun _ => ⟨rfl, rfl, rfl⟩) (fun _ => ⟨rfl, rfl, rfl⟩) rfl rfl hclosed (by simp))
    · cases hstep
      exact .setClosed hi
  | broadcasting =>
    cases hstep
    exact .broadcast hi (fun _ => ⟨rfl, rfl, rfl⟩) id
  | returned => cases hstep

private theorem removedLog_pop (i ctx : Nat) (pc : PopPc T) (w w' : Watcher) :
    Call.removedLog i (.pop ctx pc w) = Call.removedLog i (.pop ctx pc w') := by
  cases pc with
  | returned v => cases v <;> rfl
  | _ => rfl

private theorem moves_watcher {ctx : Nat} {pc : PopPc T} {w w' : Watcher}
    (hok : Call.Ok s.closed s.cancelled (.pop ctx pc w')) :
    Moves s (.pop ctx pc w) (.pop ctx pc w') where
  accepted := fun _ => rfl
  rejected := fun _ => rfl
  removed := fun i => removedLog_pop i ctx pc w' w
  ok := fun _ => hok
  parked := by
    intro hp
    obtain ⟨_, _, heq⟩ := Call.eq_of_isParked hp
    cases heq
    exact .inl rfl
  woken := by
    intro hw
    cases pc <;> first | exact .inl rfl | cases hw
  closing := by simp

private theorem watchStep_effect {s' : State T} {stop : Bool} (hstep : s.watchStep i stop = some s') :
    Effect config s s' := by
  unfold State.watchStep at hstep
  split at hstep
  · rename_i ctx pc hi
    split at hstep
    · cases hstep
      exact .move hi (moves_watcher trivial)
    · cases hstep
    · split_ifs at hstep with hcancelled
      cases hstep
      refine .move hi (moves_watcher ?_)
      cases pc <;> first | trivial | exact .inr hcancelled | exact .inr ⟨rfl, hcancelled⟩
  · rename_i ctx pc hi
    cases hstep
    refine .broadcast hi (fun k => ⟨rfl, rfl, removedLog_pop k ctx pc _ _⟩) fun hok => ?_
    cases pc with
    | slow => exact .inr (Or.resolve_left hok (by simp))
    | woken => exact .inr (Or.resolve_left hok (by simp))
    | parked => exact .inr (Or.resolve_left hok (by simp)).2
    | _ => trivial
  · cases hstep

theorem step_effect {s' : State T} {a : Action T} (hstep : step config s a = some s') : Effect config s s' := by
  cases a with
  | call c =>
    cases hstep
    exact .call c
  | cancel ctx =>
    cases hstep
    exact .cancel ctx
  | watch i stop => exact watchStep_effect hstep
  | step i wakes =>
    simp only [step, State.callStep] at hstep
    split at hstep
    · cases hstep
    · rename_i v hi
      cases hstep
      split_ifs
      · exact .move hi (moves_of_idle (fun _ => ⟨rfl, rfl, rfl⟩) (fun _ => ⟨rfl, rfl, rfl⟩) rfl rfl trivial (by simp))
      · exact .move hi (moves_of_idle (fun _ => ⟨rfl, rfl, rfl⟩) (fun _ => ⟨rfl, rfl, rfl⟩) rfl rfl trivial (by simp))
    · rename_i v hi
      exact pushBlock_effect hi hstep
    · cases hstep
    · rename_i ctx pc w hi
      exact popStep_effect hi hstep
    · rename_i pc hi
      exact closeStep_effect hi hstep

/-- Nothing happens to the queue, or one operation of a bounded FIFO. -/
theorem step_refines {s' : State T} {a : Action T} (hstep : step config s a = some s') :
    s'.fifo = s.fifo ∨ ∃ op, Fifo.apply config.cap s.fifo op = some s'.fifo := by
  cases step_effect hstep with
  | call c => exact .inl rfl
  | cancel ctx => exact .inl rfl
  | move hi hm => exact .inl rfl
  | setClosed hi => exact .inl rfl
  | broadcast hi hlogs hok => exact .inl rfl
  | @take i _ _ _ _ _ hi hpc hbuf =>
    exact .inr ⟨.take i, by simp [Fifo.apply, State.fifo, hbuf, State.take, State.setCall]⟩
  | @accept i _ v _ hi hopen hroom hsignal => exact .inr ⟨.accept i v, if_pos hroom⟩
  | @evict i _ v _ _ _ hi hopen hfull hpolicy hbuf hsignal =>
    refine .inr ⟨.evict i v, ?_⟩
    rw [hbuf] at hfull
    simp only [Fifo.apply, State.fifo, hbuf]
    exact if_pos hfull
  | @reject i _ hi hfull => exact .inr ⟨.reject i, if_pos hfull⟩

theorem inv_step (s : State T) (a : Action T) (s' : State T) (h : Inv config s) (hstep : step config s a = some s') :
    Inv config s' := by
  have hfifo : Fifo.Ok config.cap s'.fifo := by
    rcases step_refines hstep with heq | ⟨op, hop⟩
    · rw [heq]
      exact h.fifo
    · exact Fifo.ok_apply h.fifo hop
  cases step_effect hstep with
  | call c => exact h.call c
  | cancel ctx => exact h.cancel ctx
  | move hi hm => exact h.move hi hm
  | setClosed hi => exact h.setClosed hi
  | broadcast hi hlogs hok => exact h.broadcast hi hlogs hok
  | take hi hpc hbuf => exact h.take hi hpc hbuf hfifo
  | accept hi hopen hroom hsignal => exact h.accept hi hsignal hfifo (by simp) (.inl ⟨rfl, rfl⟩)
  | evict hi hopen hfull hpolicy hbuf hsignal =>
    exact h.accept hi hsignal hfifo (by simp [hbuf]) (.inr ⟨_, rfl, rfl, hpolicy⟩)
  | reject hi hfull => exact h.reject hi

private theorem closed_step (s : State T) (a : Action T) (s' : State T) (hclosed : s.closed = true)
    (hstep : step config s a = some s') : s'.closed = true ∧ s'.accepted = s.accepted := by
  have hnot : s.closed ≠ false := by rw [hclosed]; decide
  cases step_effect hstep with
  | accept hi hopen hroom hsignal => exact absurd hopen hnot
  | evict hi hopen hfull hpolicy hbuf hsignal => exact absurd hopen hnot
  | setClosed hi => exact ⟨rfl, rfl⟩
  | _ => exact ⟨hclosed, rfl⟩

/-! ### Every reachable state -/

/-- A `Pop` whose next step looks at the buffer. -/
def PopPc.looks : PopPc T → Bool
  | .start | .slow | .woken => true
  | _ => false

private theorem popStep_of_looks {ctx : Nat} {pc : PopPc T} {w : Watcher} {v : T} {rest : List T}
    (hpc : pc.looks = true)
    (hbuf : s.buf = v :: rest) : s.popStep i ctx w pc = some (s.take i ctx w v rest) := by
  cases pc with
  | start => simp only [State.popStep, hbuf]
  | slow => simp only [State.popStep, State.popBlock, hbuf]
  | woken => simp only [State.popStep, State.popBlock, hbuf]
  | precheck => cases hpc
  | parked => cases hpc
  | returned u => cases hpc

private theorem popStep_of_closed {ctx : Nat} {pc : PopPc T} {w : Watcher} (hpc : pc.looks = true) (hbuf : s.buf = [])
    (hclosed : s.closed = true) : s.popStep i ctx w pc = some (s.setCall i (.pop ctx (.returned none) w)) := by
  cases pc with
  | start => simp only [State.popStep, hbuf, hclosed, if_true]
  | slow => simp only [State.popStep, State.popBlock, hbuf, hclosed, if_true]
  | woken => simp only [State.popStep, State.popBlock, hbuf, hclosed, if_true]
  | precheck => cases hpc
  | parked => cases hpc
  | returned u => cases hpc

/-- What is right about a state of the queue. -/
structure Correct (config : Config) (s : State T) : Prop where
  bounded : s.buf.length ≤ config.cap
  /-- the record is one of the operations of a bounded FIFO, -/
  refines : Reachable (Fifo.apply config.cap) Fifo.empty s.fifo
  /-- and it is the one of the calls -/
  accepted : Pool.Logged (fun e => some e.1) Call.acceptedLog s.accepted s.calls
  rejected : Pool.Logged some Call.rejectedLog s.rejected s.calls
  removed : Pool.Logged Prod.snd Call.removedLog s.removed s.calls
  /-- what was accepted is what was taken or evicted, in this order, and then the buffer -/
  order : s.accepted.map Prod.snd = s.removed.map Prod.fst ++ s.buf
  evicts : config.policy ≠ .dropOldest → s.fifo.evicted = []
  drops : s.dropped = s.rejected.length + s.fifo.evicted.length
  /-- nothing is accepted after a `Close` has returned -/
  closed : Call.close .returned ∈ s.calls → ∀ as t, run (step config) s as = some t → t.accepted = s.accepted
  /-- a `Pop` takes what is buffered, also of a closed queue -/
  drains : ∀ i ctx pc w v rest wakes, s.calls[i]? = some (.pop ctx pc w) → pc.looks = true → s.buf = v :: rest →
    step config s (.step i wakes) = some (s.take i ctx w v rest)
  drained : ∀ i ctx pc w wakes, s.calls[i]? = some (.pop ctx pc w) → pc.looks = true → s.buf = [] →
    s.closed = true → step config s (.step i wakes) = some (s.setCall i (.pop ctx (.returned none) w))
  /-- the watcher of a `Pop` that waits has not yet broadcast; it does so once the context is cancelled -/
  cancelled : ∀ ctx w, .pop ctx .parked w ∈ s.calls → w = .waiting ∨ w = .fired
  /-- a `Close` is about to wake the calls that wait on a closed queue -/
  closing : s.closed = true → ∀ c ∈ s.calls, c.isParked = true → Call.close .broadcasting ∈ s.calls
  /-- while a call waits, there is a woken one for each value of the buffer -/
  waking : ∀ c ∈ s.calls, c.isParked = true → s.buf.length ≤ s.calls.countP Call.isWoken

/-- The record of a run is one of a bounded FIFO. -/
private theorem fifo_reachable (h : Reachable (step config) (initial : State T) s) :
    Reachable (Fifo.apply config.cap) Fifo.empty s.fifo := by
  have hstep : ∀ (r : State T) (a : Action T) r', Reachable (Fifo.apply config.cap) Fifo.empty r.fifo →
      step config r a = some r' → Reachable (Fifo.apply config.cap) Fifo.empty r'.fifo := by
    intro r a r' hr hstep
    rcases step_refines hstep with heq | ⟨op, hop⟩
    · rw [heq]
      exact hr
    · exact hr.tail hop
  have hstart : Reachable (Fifo.apply config.cap) Fifo.empty (initial : State T).fifo := Reachable.refl Fifo.empty
  obtain ⟨as, has⟩ := h
  exact run_invariant hstep hstart has

private theorem accepted_of_closed (hclosed : s.closed = true) {as : List (Action T)} {t : State T}
    (hrun : run (step config) s as = some t) : t.accepted = s.accepted := by
  have hstep : ∀ (r : State T) (a : Action T) r', r.closed = true ∧ r.accepted = s.accepted →
      step config r a = some r' → r'.closed = true ∧ r'.accepted = s.accepted := by
    intro r a r' hr hstep
    obtain ⟨hclosed', haccepted⟩ := closed_step r a r' hr.1 hstep
    exact ⟨hclosed', haccepted.trans hr.2⟩
  exact (run_invariant hstep ⟨hclosed, rfl⟩ hrun).2

/-- Whatever the calls and however their steps fall: the buffer is within the capacity, the values are taken in the
order in which they were accepted, less those that are evicted; the drops are counted; a closed queue takes nothing
and gives out what it has; and no `Pop` waits for a wake-up that does not come. -/
theorem queue_refines_fifo (config : Config) (s : State T) (h : Reachable (step config) initial s) :
    Correct config s := by
  have hinv : Inv config s := h.invariant (inv_initial config) inv_step
  exact {
    bounded := hinv.fifo.bounded
    refines := fifo_reachable h
    accepted := hinv.accepted
    rejected := hinv.rejected
    removed := hinv.removed
    order := hinv.fifo.order
    evicts := hinv.policy
    drops := hinv.drops
    closed := by
      intro hclose as t hrun
      have hclosed : s.closed = true := hinv.calls _ hclose
      exact accepted_of_closed hclosed hrun
    drains := by
      intro i ctx pc w v rest wakes hi hpc hbuf
      simp only [step, State.callStep, hi]
      exact popStep_of_looks hpc hbuf
    drained := by
      intro i ctx pc w wakes hi hpc hbuf hclosed
      simp only [step, State.callStep, hi]
      exact popStep_of_closed hpc hbuf hclosed
    cancelled := by
      intro ctx w hc
      have hok : w = .waiting ∨ w = .fired ∧ ctx ∈ s.cancelled := hinv.calls _ hc
      exact hok.imp_right And.left
    closing := hinv.closing
    waking := hinv.waking }

/-- A `Pop` waits, two values come, the second for the first, and the `Pop` gets it. -/
theorem queue_refines_fifo_evicted : ∃ s : State Nat,
    s.fifo.taken = [6] ∧ s.fifo.evicted = [5] ∧ s.dropped = 1 ∧ Correct ⟨1, Nat.one_pos, .dropOldest⟩ s := by
  obtain ⟨s, hrun, hs⟩ := exists_run (step ⟨1, Nat.one_pos, .dropOldest⟩) (initial : State Nat)
    [.call (.pop 0), .step 0 0, .step 0 0, .step 0 0, .call (.push 5), .step 1 0, .step 1 0, .call (.push 6),
      .step 2 0, .step 2 0, .step 0 0, .call .close, .step 3 0, .step 3 0]
    (p := fun s => s.fifo.taken = [6] ∧ s.fifo.evicted = [5] ∧ s.dropped = 1) (by decide +kernel)
  obtain ⟨htaken, hevicted, hdropped⟩ := of_decide_eq_true hs
  exact ⟨s, htaken, hevicted, hdropped, queue_refines_fifo _ s ⟨_, hrun⟩⟩

end

end Noda.Bounded
