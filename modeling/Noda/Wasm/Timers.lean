import Mathlib.Algebra.Order.Ring.Int
import Noda.Lib.GoMap
import Noda.Lib.Strconv
import Noda.Lib.Transition

/-!
# Timers of a Wasm module

`set_timer` and `clear_timer` of the host API and the part of `executeTick` that fires the timers.  The tick loop is one
goroutine; it reads the clock before it takes the lock, and a host call of another goroutine may come in between.  Each
reading of the clock and each block under the lock is one step.  A time is a number of nanoseconds on a clock that does
not go back, and `time.Time.Add` is exact.  What happens is recorded in a log, the newest first.

`SetTimer` computes the interval as a product of `int64`s.  What the timers respect in every run is the wrapped product
(`respects_wrapped`).  That is the interval for the settings that `time.Duration` can hold (`timers_respect_interval`),
and any other one may fire too early (`overlong_fires_early`).
-/

namespace Noda.Wasm.Timers

open Transition

/-! ### The host calls -/

/-- A field of a payload that should be a text: absent, of another type, or a text. -/
abbrev Field := Option (Option String)

def requireString (field : Field) (key : String) : Except String String :=
  match field with
  | none => .error ("VALIDATION_ERROR: " ++ key.goQuote ++ " is required")
  | some none => .error ("VALIDATION_ERROR: " ++ key.goQuote ++ " must be a string")
  | some (some s) => if s = "" then .error ("VALIDATION_ERROR: " ++ key.goQuote ++ " must not be empty") else .ok s

/-- What `set_timer` accepts; `intervalMs` is the value of `toInt64(payload["interval_ms"])`. -/
def acceptSetTimer (name : Field) (intervalMs : Option Int64) : Except String (String × Int64) :=
  match requireString name "name" with
  | .error err => .error err
  | .ok name =>
    match intervalMs with
    | none => .error "VALIDATION_ERROR: interval_ms must be a positive number"
    | some ms => if ms ≤ 0 then .error "VALIDATION_ERROR: interval_ms must be a positive number" else .ok (name, ms)

/-! ### The module -/

/-- `timerEntry`. -/
structure TimerEntry where
  interval : Int64
  nextFire : Int
  deriving DecidableEq

inductive Event where
  | set (name : String) (intervalMs : Int64) (time : Int)
  | cleared (name : String)
  | fired (name : String) (time : Int)
  deriving DecidableEq

/-- `now` is the reading of a tick that has not taken the lock yet; `clock` is the last reading. -/
structure State where
  clock : Int
  timers : GoMap TimerEntry
  now : Option Int
  log : List Event

/-- `time` is the reading of the clock; a tick visits the timers in some order. -/
inductive Action where
  | setTimer (name : Field) (intervalMs : Option Int64) (time : Int)
  | clearTimer (name : Field)
  | beginTick (time : Int)
  | tick (order : List String)
  deriving DecidableEq

def initial (clock : Int) : State := ⟨clock, ∅, none, []⟩

/-- `time.Duration(intervalMs) * time.Millisecond`. -/
def intervalNanos (intervalMs : Int64) : Int64 := intervalMs * 1000000

def newTimer (intervalMs : Int64) (time : Int) : TimerEntry :=
  ⟨intervalNanos intervalMs, time + (intervalNanos intervalMs).toInt⟩

/-- One round of the loop over the timers. -/
def checkTimer (now : Int) (timers : GoMap TimerEntry) (log : List Event) (name : String) :
    GoMap TimerEntry × List Event :=
  match timers.lookup name with
  | none => (timers, log)
  | some entry =>
    if entry.nextFire ≤ now then
      (timers.insert name ⟨entry.interval, now + entry.interval.toInt⟩, .fired name now :: log)
    else (timers, log)

def checkTimers (now : Int) : GoMap TimerEntry → List Event → List String → GoMap TimerEntry × List Event
  | timers, log, [] => (timers, log)
  | timers, log, name :: names =>
    let (timers, log) := checkTimer now timers log name
    checkTimers now timers log names

def step (s : State) : Action → Option State
  | .setTimer name intervalMs time =>
    match acceptSetTimer name intervalMs with
    | .error _ => some s
    | .ok (name, ms) =>
      if s.clock ≤ time then
        some { s with
          clock := time
          timers := s.timers.insert name (newTimer ms time)
          log := .set name ms time :: s.log }
      else none
  | .clearTimer name =>
    match requireString name "name" with
    | .error _ => some s
    | .ok name => some { s with timers := s.timers.erase name, log := .cleared name :: s.log }
  | .beginTick time =>
    match s.now with
    | some _ => none
    | none => if s.clock ≤ time then some { s with clock := time, now := some time } else none
  | .tick order =>
    match s.now with
    | none => none
    | some now =>
      if order.Perm s.timers.keys then
        let (timers, log) := checkTimers now s.timers s.log order
        some { s with now := none, timers := timers, log := log }
      else none

/-! ### What timers respect -/

/-- The interval of the timer, if it is set. -/
def setting (name : String) : List Event → Option Int64
  | [] => none
  | .set n ms _ :: log => if n = name then some ms else setting name log
  | .cleared n :: log => if n = name then none else setting name log
  | .fired _ _ :: log => setting name log

/-- When the timer was set or has fired last. -/
def started (name : String) : List Event → Option Int
  | [] => none
  | .set n _ time :: log => if n = name then some time else started name log
  | .cleared n :: log => if n = name then none else started name log
  | .fired n time :: log => if n = name then some time else started name log

/-- A timer fires only if it is set, and no earlier than its interval after it was set or has fired before. -/
def MayHappen (interval : Int64 → Int) : Event → List Event → Prop
  | .fired name time, past =>
    ∃ ms ∈ setting name past, ∃ t₀ ∈ started name past, t₀ + interval ms ≤ time
  | .set _ _ _, _ => True
  | .cleared _, _ => True

/-- Every firing in the log is one that may happen. -/
def Respects (interval : Int64 → Int) (log : List Event) : Prop := Justified (MayHappen interval) log

/-- The milliseconds as nanoseconds. -/
def nanos (ms : Int64) : Int := ms.toInt * 1000000

/-- What the code takes for that. -/
def wrapped (ms : Int64) : Int := (intervalNanos ms).toInt

/-! ### The steps -/

private theorem accept_pos {name : Field} {intervalMs : Option Int64} {accepted : String × Int64}
    (h : acceptSetTimer name intervalMs = .ok accepted) : intervalMs = some accepted.2 ∧ 0 < accepted.2 := by
  unfold acceptSetTimer at h
  cases hname : requireString name "name" with
  | error err =>
    rw [hname] at h
    cases h
  | ok name =>
    rw [hname] at h
    cases intervalMs with
    | none => cases h
    | some ms =>
      simp only at h
      split_ifs at h with hle
      cases h
      exact ⟨rfl, Int64.not_le.1 hle⟩

theorem step_cases {s s' : State} {a : Action} (h : step s a = some s') :
    (s'.timers = s.timers ∧ s'.log = s.log) ∨
    (∃ field intervalMs name ms time, a = .setTimer field intervalMs time ∧ (intervalMs = some ms ∧ 0 < ms) ∧
      s'.timers = s.timers.insert name (newTimer ms time) ∧ s'.log = .set name ms time :: s.log) ∨
    (∃ name, s'.timers = s.timers.erase name ∧ s'.log = .cleared name :: s.log) ∨
    (∃ now order, s'.timers = (checkTimers now s.timers s.log order).1 ∧
      s'.log = (checkTimers now s.timers s.log order).2) := by
  cases a with
  | setTimer field intervalMs time =>
    simp only [step] at h
    cases hok : acceptSetTimer field intervalMs with
    | error err =>
      rw [hok] at h
      cases h
      exact .inl ⟨rfl, rfl⟩
    | ok accepted =>
      rw [hok] at h
      simp only [Option.ite_none_right_eq_some] at h
      obtain ⟨-, h⟩ := h
      cases h
      exact .inr (.inl ⟨field, intervalMs, accepted.1, accepted.2, time, rfl, accept_pos hok, rfl, rfl⟩)
  | clearTimer field =>
    simp only [step] at h
    cases hok : requireString field "name" with
    | error err =>
      rw [hok] at h
      cases h
      exact .inl ⟨rfl, rfl⟩
    | ok name =>
      rw [hok] at h
      cases h
      exact .inr (.inr (.inl ⟨name, rfl, rfl⟩))
  | beginTick time =>
    simp only [step] at h
    cases hnow : s.now with
    | some now =>
      rw [hnow] at h
      cases h
    | none =>
      rw [hnow] at h
      simp only [Option.ite_none_right_eq_some] at h
      obtain ⟨-, h⟩ := h
      cases h
      exact .inl ⟨rfl, rfl⟩
  | tick order =>
    simp only [step] at h
    cases hnow : s.now with
    | none =>
      rw [hnow] at h
      cases h
    | some now =>
      rw [hnow] at h
      simp only [Option.ite_none_right_eq_some] at h
      obtain ⟨-, h⟩ := h
      cases h
      exact .inr (.inr (.inr ⟨now, order, rfl, rfl⟩))

/-! ### The invariant -/

/-- A timer of the map has been set and not cleared since, and it fires next when the wrapped interval has passed. -/
structure Inv (timers : GoMap TimerEntry) (log : List Event) : Prop where
  entry : ∀ name entry, timers.lookup name = some entry →
    ∃ ms ∈ setting name log, ∃ t₀ ∈ started name log, entry = newTimer ms t₀
  respects : Respects wrapped log

section

variable {timers : GoMap TimerEntry} {log : List Event}

theorem Inv.set (h : Inv timers log) (name : String) (ms : Int64) (time : Int) :
    Inv (timers.insert name (newTimer ms time)) (.set name ms time :: log) where
  entry := by
    intro n entry hn
    by_cases hname : n = name
    · subst hname
      rw [AList.lookup_insert] at hn
      cases hn
      exact ⟨ms, by simp [setting], time, by simp [started], rfl⟩
    · rw [AList.lookup_insert_ne hname] at hn
      obtain ⟨ms', hms, t₀, ht, rfl⟩ := h.entry n entry hn
      have hne : name ≠ n := fun heq => hname heq.symm
      exact ⟨ms', by simpa [setting, hne] using hms, t₀, by simpa [started, hne] using ht, rfl⟩
  respects := ⟨trivial, h.respects⟩

theorem Inv.clear (h : Inv timers log) (name : String) : Inv (timers.erase name) (.cleared name :: log) where
  entry := by
    intro n entry hn
    have hname : n ≠ name := by
      intro heq
      rw [heq, AList.lookup_erase] at hn
      cases hn
    rw [AList.lookup_erase_ne hname] at hn
    obtain ⟨ms, hms, t₀, ht, rfl⟩ := h.entry n entry hn
    have hne : name ≠ n := fun heq => hname heq.symm
    exact ⟨ms, by simpa [setting, hne] using hms, t₀, by simpa [started, hne] using ht, rfl⟩
  respects := ⟨trivial, h.respects⟩

theorem Inv.check (h : Inv timers log) (now : Int) (name : String) :
    Inv (checkTimer now timers log name).1 (checkTimer now timers log name).2 := by
  unfold checkTimer
  cases hentry : timers.lookup name with
  | none => exact h
  | some entry =>
    obtain ⟨ms, hms, t₀, ht, rfl⟩ := h.entry name entry hentry
    show Inv (if t₀ + wrapped ms ≤ now then _ else _ : _ × _).1 (if t₀ + wrapped ms ≤ now then _ else _ : _ × _).2
    split_ifs with hdue
    · refine ⟨?_, ⟨ms, hms, t₀, ht, hdue⟩, h.respects⟩
      intro n entry hn
      by_cases hname : n = name
      · subst hname
        rw [AList.lookup_insert] at hn
        cases hn
        exact ⟨ms, by simpa [setting] using hms, now, by simp [started], rfl⟩
      · rw [AList.lookup_insert_ne hname] at hn
        obtain ⟨ms', hms', t', ht', rfl⟩ := h.entry n entry hn
        have hne : name ≠ n := fun heq => hname heq.symm
        exact ⟨ms', by simpa [setting] using hms', t', by simpa [started, hne] using ht', rfl⟩
    · exact h

theorem Inv.checkAll (h : Inv timers log) (now : Int) (names : List String) :
    Inv (checkTimers now timers log names).1 (checkTimers now timers log names).2 := by
  induction names generalizing timers log with
  | nil => exact h
  | cons name names ih => exact ih (h.check now name)

end

theorem inv_initial (clock : Int) : Inv (initial clock).timers (initial clock).log where
  entry := by
    intro name entry h
    rw [initial, AList.lookup_empty] at h
    cases h
  respects := trivial

theorem inv_step (s : State) (a : Action) (s' : State) (h : Inv s.timers s.log) (hstep : step s a = some s') :
    Inv s'.timers s'.log := by
  obtain ⟨htimers, hlog⟩ | ⟨_, _, name, ms, time, -, -, htimers, hlog⟩ | ⟨name, htimers, hlog⟩ |
    ⟨now, order, htimers, hlog⟩ := step_cases hstep
  · rw [htimers, hlog]
    exact h
  · rw [htimers, hlog]
    exact h.set name ms time
  · rw [htimers, hlog]
    exact h.clear name
  · rw [htimers, hlog]
    exact h.checkAll now order

/-- In every run the timers respect the wrapped intervals; in particular a cleared timer does not fire. -/
theorem respects_wrapped {clock : Int} {s : State} (h : Reachable step (initial clock) s) : Respects wrapped s.log :=
  (h.invariant (P := fun s => Inv s.timers s.log) (inv_initial clock) inv_step).respects

/-! ### The intervals that an `int64` of nanoseconds can hold -/

/-- The milliseconds that `time.Duration` can hold. -/
def Representable (ms : Int64) : Prop := ms ≤ 9223372036854

instance (ms : Int64) : Decidable (Representable ms) := inferInstanceAs (Decidable (ms ≤ 9223372036854))

private theorem wrapped_eq (ms : Int64) : wrapped ms = (nanos ms).bmod (2 ^ 64) := by
  unfold wrapped intervalNanos
  rw [Int64.toInt_mul]
  rfl

private theorem wrapped_eq_of_representable {ms : Int64} (hpos : 0 < ms) (h : Representable ms) :
    wrapped ms = nanos ms := by
  have hle : ms.toInt ≤ 9223372036854 := Int64.le_iff_toInt_le.1 h
  have hlt : 0 < ms.toInt := Int64.lt_iff_toInt_lt.1 hpos
  rw [wrapped_eq]
  unfold nanos
  exact Int.bmod_eq_of_le (by omega) (by omega)

private theorem wrapped_lt_of_not_representable {ms : Int64} (h : ¬ Representable ms) : wrapped ms < nanos ms := by
  have hlt : 9223372036854 < ms.toInt := Int64.lt_iff_toInt_lt.1 (Int64.not_le.1 h)
  have hbound : wrapped ms < 2 ^ 63 := Int64.toInt_lt _
  unfold nanos
  omega

private theorem exists_set_of_setting {name : String} {ms : Int64} {log : List Event} (h : ms ∈ setting name log) :
    ∃ time, .set name ms time ∈ log := by
  induction log with
  | nil => cases h
  | cons e log ih =>
    have hlater : ms ∈ setting name log → ∃ time, .set name ms time ∈ e :: log := by
      intro hms
      obtain ⟨time, hmem⟩ := ih hms
      exact ⟨time, List.mem_cons_of_mem _ hmem⟩
    cases e with
    | set n ms' time =>
      unfold setting at h
      split_ifs at h with hn
      · cases h
        rw [hn]
        exact ⟨time, List.mem_cons_self⟩
      · exact hlater h
    | cleared n =>
      unfold setting at h
      split_ifs at h with hn
      · cases h
      · exact hlater h
    | fired n time => exact hlater h

theorem Respects.congr {interval interval' : Int64 → Int} {log : List Event} (h : Respects interval log)
    (heq : ∀ name ms time, .set name ms time ∈ log → interval ms = interval' ms) : Respects interval' log := by
  induction log with
  | nil => trivial
  | cons e log ih =>
    refine ⟨?_, ih h.2 fun name ms time hmem => heq name ms time (List.mem_cons_of_mem _ hmem)⟩
    cases e with
    | set _ _ _ => trivial
    | cleared _ => trivial
    | fired name time =>
      obtain ⟨ms, hms, t₀, ht, hle⟩ := h.1
      obtain ⟨set, hset⟩ := exists_set_of_setting hms
      rw [heq name ms set (List.mem_cons_of_mem _ hset)] at hle
      exact ⟨ms, hms, t₀, ht, hle⟩

/-- `set_timer` is called with an interval that `time.Duration` can hold. -/
def InRange (_ : State) : Action → Prop
  | .setTimer _ (some ms) _ => Representable ms
  | _ => True

instance (s : State) : ∀ a, Decidable (InRange s a)
  | .setTimer _ (some ms) _ => inferInstanceAs (Decidable (Representable ms))
  | .setTimer _ none _ => .isTrue trivial
  | .clearTimer _ => .isTrue trivial
  | .beginTick _ => .isTrue trivial
  | .tick _ => .isTrue trivial

/-- Every setting in the log is positive and can be held. -/
def SetInRange (log : List Event) : Prop := ∀ name ms time, .set name ms time ∈ log → 0 < ms ∧ Representable ms

private theorem checkTimer_set {now : Int} {timers : GoMap TimerEntry} {log : List Event} (h : SetInRange log)
    (name : String) : SetInRange (checkTimer now timers log name).2 := by
  unfold checkTimer
  split
  · exact h
  · split_ifs
    · intro n ms time hmem
      rcases List.mem_cons.1 hmem with hcons | hmem
      · cases hcons
      · exact h n ms time hmem
    · exact h

private theorem checkTimers_set {now : Int} {timers : GoMap TimerEntry} {log : List Event} (h : SetInRange log)
    (names : List String) : SetInRange (checkTimers now timers log names).2 := by
  induction names generalizing timers log with
  | nil => exact h
  | cons name names ih => exact ih (checkTimer_set h name)

private theorem setInRange_step (s : State) (a : Action) (s' : State) (h : SetInRange s.log) (ha : InRange s a)
    (hstep : step s a = some s') : SetInRange s'.log := by
  obtain ⟨-, hlog⟩ | ⟨field, _, name, ms, time, rfl, ⟨rfl, hpos⟩, -, hlog⟩ | ⟨name, -, hlog⟩ |
    ⟨now, order, -, hlog⟩ := step_cases hstep
  · rw [hlog]
    exact h
  · rw [hlog]
    intro n ms' t hmem
    rcases List.mem_cons.1 hmem with hcons | hmem
    · cases hcons
      exact ⟨hpos, ha⟩
    · exact h n ms' t hmem
  · rw [hlog]
    intro n ms' t hmem
    rcases List.mem_cons.1 hmem with hcons | hmem
    · cases hcons
    · exact h n ms' t hmem
  · rw [hlog]
    exact checkTimers_set h order

/-- In every run in which all intervals can be held by `time.Duration`, the timers respect their intervals. -/
theorem timers_respect_interval {clock : Int} {as : List Action} {s : State}
    (hm : Meets step InRange (initial clock) as)
    (h : run step (initial clock) as = some s) : Respects nanos s.log := by
  have hrange : SetInRange s.log :=
    run_invariant_of_meets (P := fun s => SetInRange s.log) setInRange_step (by intro _ _ _ h; cases h) hm h
  refine (respects_wrapped ⟨as, h⟩).congr fun name ms time hset => ?_
  obtain ⟨hpos, hms⟩ := hrange name ms time hset
  exact wrapped_eq_of_representable hpos hms

/-- A timer of a millisecond that fires twice, is cleared, and does not fire at the next tick. -/
theorem timers_respect_interval_millisecond :
    ∃ s, run step (initial 0) [.setTimer (some (some "poll")) (some 1) 5, .beginTick 1000005, .tick ["poll"],
      .beginTick 2000007, .tick ["poll"], .clearTimer (some (some "poll")), .beginTick 5000000, .tick []] = some s ∧
    s.log = [.cleared "poll", .fired "poll" 2000007, .fired "poll" 1000005, .set "poll" 1 5] ∧
    Respects nanos s.log := by
  obtain ⟨s, hrun, hlog⟩ := exists_run step (initial 0) [.setTimer (some (some "poll")) (some 1) 5,
    .beginTick 1000005, .tick ["poll"], .beginTick 2000007, .tick ["poll"], .clearTimer (some (some "poll")),
    .beginTick 5000000, .tick []]
    (p := fun s => s.log = [.cleared "poll", .fired "poll" 2000007, .fired "poll" 1000005, .set "poll" 1 5])
    (by decide +kernel)
  exact ⟨s, hrun, of_decide_eq_true hlog, timers_respect_interval (by decide +kernel) hrun⟩

/-- Every other interval may fire too early: it is set, and a tick comes when the wrapped interval has passed. -/
theorem overlong_fires_early {ms : Int64} (hpos : 0 < ms) (h : ¬ Representable ms) :
    ∃ s, Reachable step (initial 0) s ∧ ¬ Respects nanos s.log := by
  obtain ⟨now, hnow⟩ : ∃ now, now = max 0 (wrapped ms) := ⟨_, rfl⟩
  have hset : acceptSetTimer (some (some "t")) (some ms) = .ok ("t", ms) := by
    have hle : ¬ ms ≤ 0 := Int64.not_le.2 hpos
    simp [acceptSetTimer, requireString, hle]
  have hstart : 0 ≤ now := hnow ▸ le_max_left _ _
  have hdue : (newTimer ms 0).nextFire ≤ now := by
    show 0 + wrapped ms ≤ now
    rw [zero_add, hnow]
    exact le_max_right _ _
  have hcheck : checkTimers now ((∅ : GoMap TimerEntry).insert "t" (newTimer ms 0)) [.set "t" ms 0] ["t"] =
      (AList.insert "t" ⟨intervalNanos ms, now + wrapped ms⟩ ((∅ : GoMap TimerEntry).insert "t" (newTimer ms 0)),
        [.fired "t" now, .set "t" ms 0]) := by
    simp only [checkTimers, checkTimer, AList.lookup_insert, hdue, if_true]
    rfl
  have hrun : run step (initial 0) [.setTimer (some (some "t")) (some ms) 0, .beginTick now, .tick ["t"]] =
      some ⟨now, AList.insert "t" ⟨intervalNanos ms, now + wrapped ms⟩ (AList.insert "t" (newTimer ms 0) ∅), none,
        [.fired "t" now, .set "t" ms 0]⟩ := by
    refine run_cons.2 ⟨⟨0, AList.insert "t" (newTimer ms 0) ∅, none, [.set "t" ms 0]⟩, ?_, ?_⟩
    · simp [step, hset, initial]
    refine run_cons.2 ⟨⟨now, AList.insert "t" (newTimer ms 0) ∅, some now, [.set "t" ms 0]⟩, ?_, ?_⟩
    · simp [step, hstart]
    refine run_cons.2 ⟨_, ?_, rfl⟩
    simp only [step]
    rw [if_pos (by simp), hcheck]
  refine ⟨_, ⟨_, hrun⟩, fun hresp => ?_⟩
  obtain ⟨ms', hms, t₀, ht, hle⟩ := hresp.1
  simp only [setting, started, if_true, Option.mem_def, Option.some.injEq] at hms ht
  subst hms ht
  have hshort := wrapped_lt_of_not_representable h
  have hnanos : 0 < nanos ms := by
    have hlt : 0 < ms.toInt := Int64.lt_iff_toInt_lt.1 hpos
    unfold nanos
    omega
  have hearly : now < nanos ms := hnow ▸ max_lt hnanos hshort
  omega

/-- A timer that is one millisecond too long (some 292 years) fires as soon as it is set. -/
theorem overlong_timer_not_respected :
    ∃ s, run step (initial 0) [.setTimer (some (some "poll")) (some 9223372036855) 0, .beginTick 0, .tick ["poll"]] =
      some s ∧ ¬ Respects nanos s.log := by
  obtain ⟨s, hrun, hlog⟩ := exists_run step (initial 0)
    [.setTimer (some (some "poll")) (some 9223372036855) 0, .beginTick 0, .tick ["poll"]]
    (p := fun s => s.log = [.fired "poll" 0, .set "poll" 9223372036855 0]) (by decide +kernel)
  refine ⟨s, hrun, fun hresp => ?_⟩
  rw [of_decide_eq_true hlog] at hresp
  obtain ⟨ms, hms, t₀, ht, hle⟩ := hresp.1
  cases hms
  cases ht
  revert hle
  decide

end Noda.Wasm.Timers
