import Noda.Lib.Pool
import Noda.Lib.Transition

/-!
# Hot reload

`HandleChange`, `Config` and `Shutdown` of the reloader, with any number of calls side by side.  Every access to the
flag, every operation on a lock, the validation, the swap, and the start and the end of `onReload` are one step each;
the result of the validation and the moment at which the context of a `Shutdown` expires are free.  `reloadMu` says
who holds it and, for a `HandleChange`, where in its section it is; `mu` is locked for writing from the swap to the
end of `onReload` (`Place.holdsMu`), so that a read of the config takes place outside.

A configuration is known by the call that has loaded it.  The log, the newest event first, is a ghost.

A `Shutdown` that gives up waiting may return when a reload is past its last look at the flag: `onReload` starts
afterwards (`reload_not_safe`).  In every run in which this does not happen the reloader is safe (`reload_safe`).
-/

namespace Noda.Devmode

open Transition

/-- The result of the secrets, the validation and the dry run. -/
inductive Verdict where
  | secretsFailed
  | invalid
  | dryRunFailed
  | valid
  deriving DecidableEq, Repr

/-- Where a `HandleChange` is while it holds `reloadMu`. -/
inductive Place where
  | locked
  | validating
  | validated
  | swapping
  | swapped
  | reloading
  | reloaded
  | leaving
  deriving DecidableEq, Repr

/-- Who holds `reloadMu`: a `HandleChange`, or the goroutine of a `Shutdown`. -/
inductive Holder where
  | change (i : Nat) (place : Place)
  | barrier (j : Nat)
  deriving DecidableEq, Repr

/-- Where a `HandleChange` is. -/
inductive Change where
  | start
  | locking
  | inside
  | returned
  deriving DecidableEq, Repr

/-- Where a `Shutdown` is: before it sets the flag, or after that; `acquired` says that its goroutine has had the
lock. -/
inductive Shutdown where
  | start
  | running (returned acquired : Bool)
  deriving DecidableEq, Repr

inductive Event where
  | validated (i : Nat) (v : Verdict)
  | swap (i : Nat)
  | onReload (i : Nat)
  | finished (i : Nat)
  | read (config : Option Nat)
  | shutdown (j : Nat)
  deriving DecidableEq, Repr

/-- The fields of the reloader, the calls on it, and the log; the initial configuration is `none`. -/
structure State where
  shuttingDown : Bool
  reloadMu : Option Holder
  config : Option Nat
  changes : List Change
  shutdowns : List Shutdown
  log : List Event

def initial : State := ⟨false, none, none, [], [], []⟩

/-- A new call, a step of one, a call of `Config`; `v` is the result of the validation, and `expired` says that the
context of the `Shutdown` has ended. -/
inductive Action where
  | callHandleChange
  | change (i : Nat) (v : Verdict)
  | callShutdown
  | shutdown (j : Nat) (expired : Bool)
  | barrier (j : Nat)
  | config
  deriving DecidableEq, Repr

/-- The call holds `mu`. -/
def Place.holdsMu : Place → Bool
  | .swapped | .reloading | .reloaded => true
  | _ => false

/-- `mu` is locked for writing. -/
def State.muLocked (s : State) : Bool :=
  match s.reloadMu with
  | some (.change _ place) => place.holdsMu
  | _ => false

def State.goto (s : State) (i : Nat) (place : Place) : State := { s with reloadMu := some (.change i place) }

def State.emit (s : State) (e : Event) : State := { s with log := e :: s.log }

/-- `HandleChange` from the lock of `reloadMu` on; `callback` says that `onReload` is set. -/
def insideStep (callback : Bool) (s : State) (i : Nat) (v : Verdict) : Place → State
  | .locked => s.goto i (if s.shuttingDown then .leaving else .validating)
  | .validating => (s.goto i (if v = .valid then .validated else .leaving)).emit (.validated i v)
  | .validated => s.goto i (if s.shuttingDown then .leaving else .swapping)
  | .swapping => ({ s with config := some i }.goto i .swapped).emit (.swap i)
  | .swapped => if callback then (s.goto i .reloading).emit (.onReload i) else s.goto i .reloaded
  | .reloading => (s.goto i .reloaded).emit (.finished i)
  | .reloaded => s.goto i .leaving
  | .leaving => { s with reloadMu := none, changes := s.changes.set i .returned }

def changeStep (callback : Bool) (s : State) (i : Nat) (v : Verdict) : Option State :=
  match s.changes[i]? with
  | some .start => some { s with changes := s.changes.set i (if s.shuttingDown then .returned else .locking) }
  | some .locking =>
    match s.reloadMu with
    | none => some { s with reloadMu := some (.change i .locked), changes := s.changes.set i .inside }
    | some _ => none
  | some .inside =>
    match s.reloadMu with
    | some (.change k place) => if k = i then some (insideStep callback s i v place) else none
    | _ => none
  | _ => none

/-- `Shutdown`: it sets the flag, and it returns when its goroutine has had the lock or its context has ended. -/
def shutdownStep (s : State) (j : Nat) (expired : Bool) : Option State :=
  match s.shutdowns[j]? with
  | some .start => some { s with shuttingDown := true, shutdowns := s.shutdowns.set j (.running false false) }
  | some (.running false acquired) =>
    if acquired || expired then
      some ({ s with shutdowns := s.shutdowns.set j (.running true acquired) }.emit (.shutdown j))
    else none
  | _ => none

/-- The goroutine of `Shutdown`: it takes `reloadMu` and lets it go.  It may still wait when `Shutdown` has returned. -/
def barrierStep (s : State) (j : Nat) : Option State :=
  match s.shutdowns[j]?, s.reloadMu with
  | some (.running _ false), none => some { s with reloadMu := some (.barrier j) }
  | some (.running returned false), some (.barrier k) =>
    if k = j then some { s with reloadMu := none, shutdowns := s.shutdowns.set j (.running returned true) } else none
  | _, _ => none

def step (callback : Bool) (s : State) : Action → Option State
  | .callHandleChange => some { s with changes := s.changes ++ [.start] }
  | .change i v => changeStep callback s i v
  | .callShutdown => some { s with shutdowns := s.shutdowns ++ [.start] }
  | .shutdown j expired => shutdownStep s j expired
  | .barrier j => barrierStep s j
  | .config => if s.muLocked then none else some (s.emit (.read s.config))

/-! ### Safety -/

/-- The call of `HandleChange` that the event belongs to. -/
def Event.call : Event → Option Nat
  | .validated i _ | .swap i | .onReload i | .finished i => some i
  | .read _ | .shutdown _ => none

/-- The configuration after the events. -/
def lastSwap : List Event → Option Nat
  | [] => none
  | .swap i :: _ => some i
  | _ :: log => lastSwap log

/-- How many calls of `onReload` have started, and how many have finished. -/
def started : List Event → Nat
  | [] => 0
  | .onReload _ :: log => started log + 1
  | _ :: log => started log

def finished : List Event → Nat
  | [] => 0
  | .finished _ :: log => finished log + 1
  | _ :: log => finished log

/-- What is expected of the reloader. -/
structure Safe (callback : Bool) (s : State) : Prop where
  /-- No `onReload` starts after a `Shutdown` has returned. -/
  closed : ∀ later past i, s.log = later ++ .onReload i :: past → ∀ j, .shutdown j ∉ past
  /-- `Config` returns the current configuration, and its `onReload` has finished. -/
  visible : ∀ later past config, s.log = later ++ .read config :: past →
    config = lastSwap past ∧ (callback = true → ∀ i, config = some i → .finished i ∈ past)
  /-- A `HandleChange` whose validation fails changes nothing. -/
  failed : ∀ i v, .validated i v ∈ s.log → v ≠ .valid → .swap i ∉ s.log ∧ .onReload i ∉ s.log
  /-- An `onReload` starts when every earlier one has finished, and once for each call. -/
  alone : ∀ later past i, s.log = later ++ .onReload i :: past → started past = finished past ∧ .onReload i ∉ past
  current : s.config = lastSwap s.log

/-- The call has looked at the flag for the last time and has not started `onReload`. -/
def Place.unchecked (place : Place) : Prop := place = .swapping ∨ place = .swapped

instance (place : Place) : Decidable place.unchecked := inferInstanceAs (Decidable (_ ∨ _))

/-- The place of the `HandleChange` that holds `reloadMu`. -/
def Holder.place? : Holder → Option Place
  | .change _ place => some place
  | .barrier _ => none

/-- A `Shutdown` that gives up waiting does so when no `HandleChange` is past its last look at the flag. -/
def timely (s : State) : Action → Prop
  | .shutdown j _ => s.shutdowns[j]? = some (.running false false) →
      ∀ place ∈ s.reloadMu.bind Holder.place?, ¬place.unchecked
  | _ => True

instance decidableTimely : ∀ (s : State) (a : Action), Decidable (timely s a)
  | s, .shutdown j _ => inferInstanceAs (Decidable (s.shutdowns[j]? = some (.running false false) →
      ∀ place ∈ s.reloadMu.bind Holder.place?, ¬place.unchecked))
  | _, .callHandleChange | _, .change _ _ | _, .callShutdown | _, .barrier _ | _, .config => .isTrue trivial

/-- What is allowed to happen after the events of the past. -/
def allowed (callback : Bool) : Event → List Event → Prop
  | .onReload i, past => (∀ j, .shutdown j ∉ past) ∧ started past = finished past ∧ .onReload i ∉ past
  | .read config, past => config = lastSwap past ∧ (callback = true → ∀ i, config = some i → .finished i ∈ past)
  | _, _ => True

/-- What is known of the call that holds `reloadMu`, by where it is. -/
def PlaceOk (callback : Bool) (config : Option Nat) (log : List Event) (i : Nat) : Place → Prop
  | .locked | .validating => ∀ e ∈ log, e.call ≠ some i
  | .validated | .swapping => ∀ e ∈ log, e.call = some i → e = .validated i .valid
  | .swapped => config = some i ∧ ∀ e ∈ log, e.call = some i → e = .validated i .valid ∨ e = .swap i
  | .reloading => config = some i
  | .reloaded => config = some i ∧ (callback = true → .finished i ∈ log)
  | .leaving => True

/-- An `onReload` is running. -/
def State.reloads (s : State) : Prop := ∃ i, s.reloadMu = some (.change i .reloading)

/-- The invariant of the calls of `HandleChange`. -/
structure ChangesOk (callback : Bool) (s : State) : Prop where
  justified : Justified (allowed callback) s.log
  current : s.config = lastSwap s.log
  failed : ∀ i v, .validated i v ∈ s.log → v ≠ .valid → .swap i ∉ s.log ∧ .onReload i ∉ s.log
  begun : ∀ e ∈ s.log, ∀ i, e.call = some i → s.changes[i]? = some .inside ∨ s.changes[i]? = some .returned
  inside : ∀ i place, s.reloadMu = some (.change i place) → s.changes[i]? = some .inside
  place : ∀ i place, s.reloadMu = some (.change i place) → PlaceOk callback s.config s.log i place
  idle : ¬s.reloads → started s.log = finished s.log
  busy : s.reloads → started s.log = finished s.log + 1
  visible : callback = true → s.muLocked = false → ∀ i, s.config = some i → .finished i ∈ s.log

/-- The invariant of the calls of `Shutdown`: once one has had the lock, nobody passes the first look at the flag, and
once one has returned, nobody is past the last one. -/
structure ShutdownsOk (s : State) : Prop where
  flag : ∀ (j : Nat) returned acquired, s.shutdowns[j]? = some (.running returned acquired) → s.shuttingDown = true
  drained : ∀ (j : Nat) returned, s.shutdowns[j]? = some (.running returned true) →
    ∀ i place, s.reloadMu = some (.change i place) → place = .locked ∨ place = .leaving
  closed : ∀ j, .shutdown j ∈ s.log →
    s.shuttingDown = true ∧ ∀ i place, s.reloadMu = some (.change i place) → ¬place.unchecked

variable {callback : Bool} {s s' : State} {i j : Nat} {v : Verdict} {place : Place}

theorem ChangesOk.safe (h : ChangesOk callback s) : Safe callback s where
  closed later past i hlog := by
    have hallowed := (hlog ▸ h.justified).split.1
    exact hallowed.1
  visible later past config hlog := (hlog ▸ h.justified).split.1
  failed := h.failed
  alone later past i hlog := by
    have hallowed := (hlog ▸ h.justified).split.1
    exact hallowed.2
  current := h.current

/-! ### One step -/

/-- A call that holds the lock leaves the flag and the calls of `Shutdown` alone. -/
private theorem insideStep_frame (callback : Bool) (s : State) (i : Nat) (v : Verdict) (place : Place) :
    (insideStep callback s i v place).shuttingDown = s.shuttingDown ∧
      (insideStep callback s i v place).shutdowns = s.shutdowns ∧
      ∀ j, .shutdown j ∈ (insideStep callback s i v place).log → .shutdown j ∈ s.log := by
  have hemit : ∀ {e : Event} (j : Nat), e.call = some i → .shutdown j ∈ e :: s.log → .shutdown j ∈ s.log := by
    rintro e j hcall hmem
    refine (List.mem_cons.1 hmem).resolve_left ?_
    rintro rfl
    cases hcall
  cases place with
  | locked | validated | reloaded | leaving => exact ⟨rfl, rfl, fun _ hmem => hmem⟩
  | validating | swapping | reloading => exact ⟨rfl, rfl, fun j hmem => hemit j rfl hmem⟩
  | swapped =>
    simp only [insideStep]
    split_ifs
    · exact ⟨rfl, rfl, fun j hmem => hemit j rfl hmem⟩
    · exact ⟨rfl, rfl, fun _ hmem => hmem⟩

/-- Where a call goes when the flag is set: the first look at it ends the call, and so does the last one. -/
private theorem place_of_shuttingDown (hflag : s.shuttingDown = true) {k : Nat} {place' : Place}
    (hmu' : (insideStep callback s i v place).reloadMu = some (.change k place')) :
    (place = .locked → place' = .leaving) ∧ place ≠ .leaving ∧ (¬place.unchecked → ¬place'.unchecked) := by
  cases place with
  | locked | validated =>
    simp only [insideStep, State.goto, hflag, if_true, Option.some.injEq, Holder.change.injEq] at hmu'
    simp [← hmu'.2, Place.unchecked]
  | validating =>
    simp only [insideStep, State.goto, State.emit, Option.some.injEq, Holder.change.injEq] at hmu'
    rw [← hmu'.2]
    split_ifs <;> simp [Place.unchecked]
  | swapping => simp [Place.unchecked]
  | swapped => simp [Place.unchecked]
  | reloading | reloaded =>
    simp only [insideStep, State.goto, State.emit, Option.some.injEq, Holder.change.injEq] at hmu'
    simp [← hmu'.2, Place.unchecked]
  | leaving => cases hmu'

private theorem shutdownsOk_inside (h : ShutdownsOk s) (hmu : s.reloadMu = some (.change i place)) :
    ShutdownsOk (insideStep callback s i v place) := by
  obtain ⟨hflag, hshutdowns, hlog⟩ := insideStep_frame callback s i v place
  constructor
  · rw [hflag, hshutdowns]
    exact h.flag
  · rw [hshutdowns]
    intro j returned hj k place' hmu'
    obtain ⟨hlocked, hleaving, -⟩ := place_of_shuttingDown (h.flag j returned true hj) hmu'
    exact .inr (hlocked ((h.drained j returned hj i place hmu).resolve_right hleaving))
  · rw [hflag]
    intro j hj
    obtain ⟨hset, hchecked⟩ := h.closed j (hlog j hj)
    refine ⟨hset, fun k place' hmu' => ?_⟩
    exact (place_of_shuttingDown hset hmu').2.2 (hchecked i place hmu)

private theorem changesOk_goto (h : ChangesOk callback s) (hmu : s.reloadMu = some (.change i place)) {place' : Place}
    (hplace : PlaceOk callback s.config s.log i place') (hquiet : place ≠ .reloading) (hquiet' : place' ≠ .reloading)
    (hvisible : callback = true → place'.holdsMu = false → ∀ k, s.config = some k → .finished k ∈ s.log) :
    ChangesOk callback (s.goto i place') := by
  have hinside := h.inside i place hmu
  have hidle : started s.log = finished s.log := by
    refine h.idle ?_
    rintro ⟨k, hk⟩
    rw [hmu] at hk
    simp only [Option.some.injEq, Holder.change.injEq] at hk
    exact hquiet hk.2
  refine ⟨h.justified, h.current, h.failed, h.begun, ?_, ?_, fun _ => hidle, ?_, hvisible⟩
  · rintro k place heq
    simp only [State.goto, Option.some.injEq, Holder.change.injEq] at heq
    obtain ⟨rfl, -⟩ := heq
    exact hinside
  · rintro k place heq
    simp only [State.goto, Option.some.injEq, Holder.change.injEq] at heq
    obtain ⟨rfl, rfl⟩ := heq
    exact hplace
  · rintro ⟨k, hk⟩
    simp only [State.goto, Option.some.injEq, Holder.change.injEq] at hk
    exact absurd hk.2 hquiet'

private theorem failed_cons {log : List Event} {e : Event}
    (hfailed : ∀ k v, .validated k v ∈ log → v ≠ .valid → .swap k ∉ log ∧ .onReload k ∉ log)
    (hkind : ∀ k v, e ≠ .validated k v)
    (hnew : ∀ k v, .validated k v ∈ log → v ≠ .valid → e ≠ .swap k ∧ e ≠ .onReload k) :
    ∀ k v, .validated k v ∈ e :: log → v ≠ .valid → .swap k ∉ e :: log ∧ .onReload k ∉ e :: log := by
  intro k v hmem hv
  have hold : .validated k v ∈ log := (List.mem_cons.1 hmem).resolve_left fun heq => hkind k v heq.symm
  obtain ⟨hswap, honReload⟩ := hfailed k v hold hv
  obtain ⟨hswap', honReload'⟩ := hnew k v hold hv
  exact ⟨List.not_mem_cons_of_ne_of_not_mem hswap'.symm hswap,
    List.not_mem_cons_of_ne_of_not_mem honReload'.symm honReload⟩

private theorem changesOk_emit (h : ChangesOk callback s) (hmu : s.reloadMu = some (.change i place)) {e : Event}
    {config : Option Nat} {place' : Place} (hcall : e.call = some i) (hallowed : allowed callback e s.log)
    (hcurrent : config = lastSwap (e :: s.log))
    (hfailed : ∀ k v, .validated k v ∈ e :: s.log → v ≠ .valid → .swap k ∉ e :: s.log ∧ .onReload k ∉ e :: s.log)
    (hplace : PlaceOk callback config (e :: s.log) i place')
    (hidle : place' ≠ .reloading → started (e :: s.log) = finished (e :: s.log))
    (hbusy : place' = .reloading → started (e :: s.log) = finished (e :: s.log) + 1)
    (hvisible : callback = true → place'.holdsMu = false → ∀ k, config = some k → .finished k ∈ e :: s.log) :
    ChangesOk callback (({ s with config := config }.goto i place').emit e) := by
  have hinside := h.inside i place hmu
  have hreloads : ∀ t : State, t.reloadMu = some (.change i place') → (t.reloads ↔ place' = .reloading) := by
    intro t ht
    rw [State.reloads, ht]
    simp
  refine ⟨⟨hallowed, h.justified⟩, hcurrent, hfailed, ?_, ?_, ?_, ?_, ?_, hvisible⟩
  · intro e' he' k hk
    rcases List.mem_cons.1 he' with rfl | hold
    · obtain rfl : i = k := Option.some.inj (hcall.symm.trans hk)
      exact .inl hinside
    · exact h.begun e' hold k hk
  · rintro k place'' heq
    simp only [State.goto, State.emit, Option.some.injEq, Holder.change.injEq] at heq
    obtain ⟨rfl, -⟩ := heq
    exact hinside
  · rintro k place'' heq
    simp only [State.goto, State.emit, Option.some.injEq, Holder.change.injEq] at heq
    obtain ⟨rfl, rfl⟩ := heq
    exact hplace
  · rw [hreloads _ rfl]
    exact hidle
  · rw [hreloads _ rfl]
    exact hbusy

/-- Under the lock, only `onReload` itself runs an `onReload`. -/
theorem ChangesOk.quiet (h : ChangesOk callback s) (hmu : s.reloadMu = some (.change i place))
    (hne : place ≠ .reloading) :
    started s.log = finished s.log := by
  refine h.idle ?_
  rintro ⟨k, hk⟩
  rw [hmu] at hk
  exact hne (Holder.change.inj (Option.some.inj hk)).2

theorem ChangesOk.validate (h : ChangesOk callback s) (hmu : s.reloadMu = some (.change i .validating)) :
    ChangesOk callback (insideStep callback s i v .validating) := by
  have hfirst : ∀ e ∈ s.log, e.call ≠ some i := h.place i _ hmu
  have hlocked : s.muLocked = false := by rw [State.muLocked, hmu]; rfl
  refine changesOk_emit h hmu rfl trivial h.current ?_ ?_ (fun _ => h.quiet hmu (by decide)) (by split <;> simp)
    fun hcallback _ k hk => List.mem_cons_of_mem _ (h.visible hcallback hlocked k hk)
  · intro k v' hmem hv'
    refine ⟨fun hswap => ?_, fun honReload => ?_⟩
    · have hold := (List.mem_cons.1 hswap).resolve_left fun heq => nomatch heq
      rcases List.mem_cons.1 hmem with heq | hmem
      · obtain ⟨rfl, -⟩ := Event.validated.inj heq
        exact hfirst _ hold rfl
      · exact (h.failed k v' hmem hv').1 hold
    · have hold := (List.mem_cons.1 honReload).resolve_left fun heq => nomatch heq
      rcases List.mem_cons.1 hmem with heq | hmem
      · obtain ⟨rfl, -⟩ := Event.validated.inj heq
        exact hfirst _ hold rfl
      · exact (h.failed k v' hmem hv').2 hold
  · split_ifs with hv
    · intro e he hcall
      rcases List.mem_cons.1 he with rfl | hold
      · rw [hv]
      · exact absurd hcall (hfirst e hold)
    · exact trivial

/-- `onReload` is called after the swap: no `Shutdown` has returned, and no `onReload` is running. -/
theorem ChangesOk.callOnReload (h : ChangesOk callback s) (hshutdowns : ShutdownsOk s)
    (hmu : s.reloadMu = some (.change i .swapped)) : ChangesOk callback (insideStep callback s i v .swapped) := by
  have hopen : ∀ j, .shutdown j ∉ s.log := fun j hj => (hshutdowns.closed j hj).2 i _ hmu (.inr rfl)
  have hquiet := h.quiet hmu (by decide)
  obtain ⟨hconfig, hcalls⟩ : s.config = some i ∧
    ∀ e ∈ s.log, e.call = some i → e = .validated i .valid ∨ e = .swap i := h.place i _ hmu
  have hnew : .onReload i ∉ s.log :=
    fun hmem => (hcalls _ hmem rfl).elim (fun heq => nomatch heq) fun heq => nomatch heq
  simp only [insideStep]
  split_ifs with hcallback
  · refine changesOk_emit h hmu rfl ⟨hopen, hquiet, hnew⟩ h.current ?_ hconfig (fun hne => absurd rfl hne)
      (fun _ => congrArg (· + 1) hquiet) fun _ hmu' => nomatch hmu'
    refine failed_cons h.failed (fun _ _ heq => nomatch heq) fun k v' hmem hv' => ⟨fun heq => (nomatch heq), ?_⟩
    intro heq
    obtain rfl := Event.onReload.inj heq
    rcases hcalls _ hmem rfl with heq' | heq'
    · exact hv' (Event.validated.inj heq').2
    · exact nomatch heq'
  · exact changesOk_goto h hmu ⟨hconfig, fun hc => absurd hc hcallback⟩ (by decide) (by decide)
      fun _ hmu' => nomatch hmu'

/-- The call lets the lock go and returns. -/
theorem ChangesOk.leave (h : ChangesOk callback s) (hmu : s.reloadMu = some (.change i .leaving)) :
    ChangesOk callback (insideStep callback s i v .leaving) := by
  have hlocked : s.muLocked = false := by rw [State.muLocked, hmu]; rfl
  have hreloads : ¬State.reloads (insideStep callback s i v .leaving) := by
    rintro ⟨k, hk⟩
    exact nomatch hk
  refine ⟨h.justified, h.current, h.failed, ?_, fun _ _ heq => (nomatch heq), fun _ _ heq => (nomatch heq),
    fun _ => h.quiet hmu (by decide), fun hbusy => absurd hbusy hreloads,
    fun hcallback _ => h.visible hcallback hlocked⟩
  intro e he k hk
  by_cases hki : k = i
  · subst hki
    refine .inr (List.getElem?_set_self ?_)
    exact (List.getElem?_eq_some_iff.1 (h.inside k _ hmu)).1
  · have hset : (insideStep callback s i v .leaving).changes[k]? = s.changes[k]? :=
      List.getElem?_set_ne fun heq => hki heq.symm
    rw [hset]
    exact h.begun e he k hk

private theorem changesOk_inside (h : ChangesOk callback s) (hshutdowns : ShutdownsOk s)
    (hmu : s.reloadMu = some (.change i place)) : ChangesOk callback (insideStep callback s i v place) := by
  have hplace := h.place i place hmu
  have hlocked : s.muLocked = place.holdsMu := by rw [State.muLocked, hmu]
  cases place with
  | locked =>
    refine changesOk_goto h hmu ?_ (by decide) (by split <;> decide) fun hcallback _ => h.visible hcallback hlocked
    split
    · exact trivial
    · exact hplace
  | validating => exact h.validate hmu
  | validated =>
    refine changesOk_goto h hmu ?_ (by decide) (by split <;> decide) fun hcallback _ => h.visible hcallback hlocked
    split
    · exact trivial
    · exact hplace
  | swapping =>
    have hvalid : ∀ e ∈ s.log, e.call = some i → e = .validated i .valid := hplace
    refine changesOk_emit h hmu rfl trivial rfl ?_ ⟨rfl, fun e he hcall => ?_⟩ (fun _ => h.quiet hmu (by decide))
      (by simp) fun _ hmu' => nomatch hmu'
    · refine failed_cons h.failed (fun _ _ heq => nomatch heq) fun k v' hmem hv' => ⟨?_, fun heq => nomatch heq⟩
      intro heq
      obtain rfl := Event.swap.inj heq
      exact hv' (Event.validated.inj (hvalid _ hmem rfl)).2
    · rcases List.mem_cons.1 he with rfl | hold
      · exact .inr rfl
      · exact .inl (hvalid e hold hcall)
  | swapped => exact h.callOnReload hshutdowns hmu
  | reloading =>
    have hconfig : s.config = some i := hplace
    have hbusy : started s.log = finished s.log + 1 := h.busy ⟨i, hmu⟩
    refine changesOk_emit h hmu rfl trivial h.current ?_ ⟨hconfig, fun _ => List.mem_cons_self⟩ (fun _ => hbusy)
      (fun heq => nomatch heq) fun _ hmu' => nomatch hmu'
    exact failed_cons h.failed (fun _ _ heq => nomatch heq) fun _ _ _ _ =>
      ⟨fun heq => (nomatch heq), fun heq => nomatch heq⟩
  | reloaded =>
    refine changesOk_goto h hmu trivial (by decide) (by decide) fun hcallback _ k hk => ?_
    obtain rfl : i = k := Option.some.inj (hplace.1.symm.trans hk)
    exact hplace.2 hcallback
  | leaving => exact h.leave hmu

/-- A step that leaves the lock, the configuration and the log alone, and the calls that have had the lock. -/
theorem ChangesOk.frame (h : ChangesOk callback s) (hmu : s'.reloadMu = s.reloadMu) (hconfig : s'.config = s.config)
    (hlog : s'.log = s.log)
    (hchanges : ∀ (k : Nat) c, s.changes[k]? = some c → c = .inside ∨ c = .returned → s'.changes[k]? = some c) :
    ChangesOk callback s' := by
  have hreloads : s'.reloads ↔ s.reloads := by rw [State.reloads, State.reloads, hmu]
  have hlocked : s'.muLocked = s.muLocked := by rw [State.muLocked, State.muLocked, hmu]
  refine ⟨hlog ▸ h.justified, ?_, hlog ▸ h.failed, ?_, ?_, ?_, ?_, ?_, ?_⟩
  · rw [hconfig, hlog]
    exact h.current
  · intro e he k hcall
    rcases h.begun e (hlog ▸ he) k hcall with hk | hk
    · exact .inl (hchanges k _ hk (.inl rfl))
    · exact .inr (hchanges k _ hk (.inr rfl))
  · intro k place hk
    exact hchanges k _ (h.inside k place (hmu ▸ hk)) (.inl rfl)
  · intro k place hk
    rw [hconfig, hlog]
    exact h.place k place (hmu ▸ hk)
  · rw [hreloads, hlog]
    exact h.idle
  · rw [hreloads, hlog]
    exact h.busy
  · rw [hlocked, hconfig, hlog]
    exact h.visible

/-- Somebody takes the lock, or lets it go, outside of `mu`. -/
theorem ChangesOk.setLock (h : ChangesOk callback s) {holder : Option Holder} (hunlocked : s.muLocked = false)
    (hlock : ∀ k place, holder = some (.change k place) → s.changes[k]? = some .inside ∧ place = .locked ∧
      ∀ e ∈ s.log, e.call ≠ some k) : ChangesOk callback { s with reloadMu := holder } := by
  have hidle : ¬s.reloads := by
    rintro ⟨k, hk⟩
    rw [State.muLocked, hk] at hunlocked
    exact nomatch hunlocked
  refine ⟨h.justified, h.current, h.failed, h.begun, fun k place hk => (hlock k place hk).1, ?_,
    fun _ => h.idle hidle, ?_, fun hcallback _ => h.visible hcallback hunlocked⟩
  · intro k place hk
    obtain ⟨-, rfl, hfirst⟩ := hlock k place hk
    exact hfirst
  · rintro ⟨k, hk⟩
    exact nomatch (hlock k _ hk).2.1

/-- A `HandleChange` sees the flag, gets the lock, or goes on under it. -/
theorem changeStep_cases (hstep : changeStep callback s i v = some s') :
    (s.changes[i]? = some .start ∧
      s' = { s with changes := s.changes.set i (if s.shuttingDown then .returned else .locking) }) ∨
    (s.changes[i]? = some .locking ∧ s.reloadMu = none ∧
      s' = { s with reloadMu := some (.change i .locked), changes := s.changes.set i .inside }) ∨
    ∃ place, s.reloadMu = some (.change i place) ∧ s' = insideStep callback s i v place := by
  unfold changeStep at hstep
  cases hi : s.changes[i]? with
  | none => simp [hi] at hstep
  | some change =>
    cases change with
    | start =>
      simp only [hi, Option.some.injEq] at hstep
      exact .inl ⟨rfl, hstep.symm⟩
    | locking =>
      cases hmu : s.reloadMu with
      | some holder => simp [hi, hmu] at hstep
      | none =>
        simp only [hi, hmu, Option.some.injEq] at hstep
        exact .inr (.inl ⟨rfl, rfl, hstep.symm⟩)
    | inside =>
      cases hmu : s.reloadMu with
      | none => simp [hi, hmu] at hstep
      | some holder =>
        cases holder with
        | barrier k => simp [hi, hmu] at hstep
        | change k place =>
          simp only [hi, hmu, Option.ite_none_right_eq_some, Option.some.injEq] at hstep
          obtain ⟨rfl, rfl⟩ := hstep
          exact .inr (.inr ⟨place, rfl, rfl⟩)
    | returned => simp [hi] at hstep

private theorem changesOk_change (h : ChangesOk callback s) (hshutdowns : ShutdownsOk s)
    (hstep : changeStep callback s i v = some s') : ChangesOk callback s' := by
  have hset : ∀ c c', s.changes[i]? = some c → c ≠ .inside → c ≠ .returned → ∀ (k : Nat) d, s.changes[k]? = some d →
      d = .inside ∨ d = .returned → (s.changes.set i c')[k]? = some d := by
    intro c c' hi hinside hreturned k d hd hor
    rw [List.getElem?_set_ne (by grind)]
    exact hd
  rcases changeStep_cases hstep with ⟨hi, rfl⟩ | ⟨hi, hmu, rfl⟩ | ⟨place, hmu, rfl⟩
  · exact h.frame rfl rfl rfl (hset _ _ hi (by decide) (by decide))
  · have hframe : ChangesOk callback { s with changes := s.changes.set i .inside } :=
      h.frame rfl rfl rfl (hset _ _ hi (by decide) (by decide))
    refine hframe.setLock (by simp [State.muLocked, hmu]) fun k place hk => ?_
    simp only [Option.some.injEq, Holder.change.injEq] at hk
    obtain ⟨rfl, rfl⟩ := hk
    refine ⟨List.getElem?_set_self (List.getElem?_eq_some_iff.1 hi).1, rfl, fun e he hcall => ?_⟩
    rcases h.begun e he i hcall with hbegun | hbegun
    · simp [hi] at hbegun
    · simp [hi] at hbegun
  · exact changesOk_inside h hshutdowns hmu

private theorem shutdownsOk_change (h : ShutdownsOk s) (hstep : changeStep callback s i v = some s') :
    ShutdownsOk s' := by
  rcases changeStep_cases hstep with ⟨-, rfl⟩ | ⟨-, -, rfl⟩ | ⟨place, hmu, rfl⟩
  · exact ⟨h.flag, h.drained, h.closed⟩
  · refine ⟨h.flag, ?_, fun j hj => ⟨(h.closed j hj).1, ?_⟩⟩
    · intro j returned _ k place hk
      simp only [Option.some.injEq, Holder.change.injEq] at hk
      exact .inl hk.2.symm
    · intro k place hk
      simp only [Option.some.injEq, Holder.change.injEq] at hk
      rw [← hk.2]
      decide
  · exact shutdownsOk_inside h hmu

/-- A `Shutdown` sets the flag, or it returns. -/
theorem shutdownStep_cases {expired : Bool} (hstep : shutdownStep s j expired = some s') :
    (s.shutdowns[j]? = some .start ∧
      s' = { s with shuttingDown := true, shutdowns := s.shutdowns.set j (.running false false) }) ∨
    ∃ acquired, s.shutdowns[j]? = some (.running false acquired) ∧
      s' = { s with shutdowns := s.shutdowns.set j (.running true acquired), log := .shutdown j :: s.log } := by
  unfold shutdownStep at hstep
  split at hstep
  · exact .inl ⟨by assumption, (Option.some.inj hstep).symm⟩
  · rename_i acquired hj
    simp only [Option.ite_none_right_eq_some, Option.some.injEq] at hstep
    exact .inr ⟨acquired, hj, hstep.2.symm⟩
  · exact nomatch hstep

theorem barrierStep_cases (hstep : barrierStep s j = some s') :
    ∃ returned, s.shutdowns[j]? = some (.running returned false) ∧
    (s.reloadMu = none ∧ s' = { s with reloadMu := some (.barrier j) } ∨
      s.reloadMu = some (.barrier j) ∧
        s' = { s with reloadMu := none, shutdowns := s.shutdowns.set j (.running returned true) }) := by
  unfold barrierStep at hstep
  split at hstep
  · rename_i returned hj hmu
    exact ⟨returned, hj, .inl ⟨hmu, (Option.some.inj hstep).symm⟩⟩
  · rename_i returned k hj hmu
    simp only [Option.ite_none_right_eq_some, Option.some.injEq] at hstep
    obtain ⟨rfl, rfl⟩ := hstep
    exact ⟨returned, hj, .inr ⟨hmu, rfl⟩⟩
  · exact nomatch hstep

private theorem shutdownsOk_shutdown {expired : Bool} (h : ShutdownsOk s) (htimely : timely s (.shutdown j expired))
    (hstep : shutdownStep s j expired = some s') : ShutdownsOk s' := by
  rcases shutdownStep_cases hstep with ⟨hj, rfl⟩ | ⟨acquired, hj, rfl⟩
  · refine ⟨fun _ _ _ _ => rfl, ?_, fun k hk => ⟨rfl, (h.closed k hk).2⟩⟩
    intro k returned hk
    rcases Pool.getElem?_set_some hk with ⟨-, heq⟩ | ⟨-, hk⟩
    · exact nomatch heq
    · exact h.drained k returned hk
  · refine ⟨?_, ?_, ?_⟩
    · intro k returned acquired' hk
      rcases Pool.getElem?_set_some hk with ⟨-, -⟩ | ⟨-, hk⟩
      · exact h.flag j false acquired hj
      · exact h.flag k returned acquired' hk
    · intro k returned hk
      rcases Pool.getElem?_set_some hk with ⟨-, heq⟩ | ⟨-, hk⟩
      · simp only [Shutdown.running.injEq] at heq
        exact h.drained j false (heq.2 ▸ hj)
      · exact h.drained k returned hk
    · -- the call returns: it has had the lock, or it gives up waiting
      intro _ _
      refine ⟨h.flag j false acquired hj, fun k place hk => ?_⟩
      cases acquired with
      | true =>
        rcases h.drained j false hj k place hk with rfl | rfl
        · decide
        · decide
      | false => exact htimely hj place (by rw [show s.reloadMu = _ from hk]; rfl)

private theorem shutdownsOk_barrier (h : ShutdownsOk s) (hstep : barrierStep s j = some s') : ShutdownsOk s' := by
  obtain ⟨returned, hj, ⟨-, rfl⟩ | ⟨-, rfl⟩⟩ := barrierStep_cases hstep
  · exact ⟨h.flag, fun _ _ _ _ _ hk => (nomatch hk), fun k hk => ⟨(h.closed k hk).1, fun _ _ hk => (nomatch hk)⟩⟩
  · refine ⟨?_, fun _ _ _ _ _ hk => (nomatch hk), fun k hk => ⟨(h.closed k hk).1, fun _ _ hk => (nomatch hk)⟩⟩
    intro k returned' acquired hk
    rcases Pool.getElem?_set_some hk with ⟨-, -⟩ | ⟨-, hk⟩
    · exact h.flag j returned false hj
    · exact h.flag k returned' acquired hk

theorem ChangesOk.emit (h : ChangesOk callback s) {e : Event} (hcall : e.call = none)
    (hallowed : allowed callback e s.log) : ChangesOk callback (s.emit e) := by
  have hlast : lastSwap (e :: s.log) = lastSwap s.log := by cases e <;> first | rfl | exact nomatch hcall
  have hstarted : started (e :: s.log) = started s.log := by cases e <;> first | rfl | exact nomatch hcall
  have hfinished : finished (e :: s.log) = finished s.log := by cases e <;> first | rfl | exact nomatch hcall
  have hmem : ∀ e' ∈ e :: s.log, ∀ k, e'.call = some k → e' ∈ s.log := by
    intro e' he' k hk
    rcases List.mem_cons.1 he' with rfl | he'
    · rw [hcall] at hk
      exact nomatch hk
    · exact he'
  refine ⟨⟨hallowed, h.justified⟩, h.current.trans hlast.symm, ?_, ?_, h.inside, ?_, ?_, ?_, ?_⟩
  · intro k v hk hv
    obtain ⟨hswap, honReload⟩ := h.failed k v (hmem _ hk k rfl) hv
    exact ⟨fun hk => hswap (hmem _ hk k rfl), fun hk => honReload (hmem _ hk k rfl)⟩
  · intro e' he' k hk
    exact h.begun e' (hmem e' he' k hk) k hk
  · intro k place hk
    have hplace := h.place k place hk
    cases place with
    | locked => exact fun e' he' hk => hplace e' (hmem e' he' k hk) hk
    | validating => exact fun e' he' hk => hplace e' (hmem e' he' k hk) hk
    | validated => exact fun e' he' hk => hplace e' (hmem e' he' k hk) hk
    | swapping => exact fun e' he' hk => hplace e' (hmem e' he' k hk) hk
    | swapped => exact ⟨hplace.1, fun e' he' hk => hplace.2 e' (hmem e' he' k hk) hk⟩
    | reloading => exact hplace
    | reloaded => exact ⟨hplace.1, fun hcallback => List.mem_cons_of_mem _ (hplace.2 hcallback)⟩
    | leaving => trivial
  · intro hidle
    exact hstarted.trans ((h.idle hidle).trans hfinished.symm)
  · intro hbusy
    rw [State.emit, hstarted, hfinished]
    exact h.busy hbusy
  · intro hcallback hunlocked k hk
    exact List.mem_cons_of_mem _ (h.visible hcallback hunlocked k hk)

private theorem changesOk_step {a : Action} (h : ChangesOk callback s) (hshutdowns : ShutdownsOk s)
    (hstep : step callback s a = some s') : ChangesOk callback s' := by
  cases a with
  | callHandleChange =>
    obtain rfl := Option.some.inj hstep
    refine h.frame rfl rfl rfl fun k c hk _ => ?_
    rw [List.getElem?_append_left (List.getElem?_eq_some_iff.1 hk).1]
    exact hk
  | change i v => exact changesOk_change h hshutdowns hstep
  | callShutdown =>
    obtain rfl := Option.some.inj hstep
    exact h.frame rfl rfl rfl fun _ _ hk _ => hk
  | shutdown j expired =>
    rcases shutdownStep_cases hstep with ⟨-, rfl⟩ | ⟨acquired, -, rfl⟩
    · exact h.frame rfl rfl rfl fun _ _ hk _ => hk
    · have hemit : ChangesOk callback (s.emit (.shutdown j)) := h.emit rfl trivial
      exact hemit.frame rfl rfl rfl fun _ _ hk _ => hk
  | barrier j =>
    obtain ⟨returned, -, ⟨hmu, rfl⟩ | ⟨hmu, rfl⟩⟩ := barrierStep_cases hstep
    · exact h.setLock (by rw [State.muLocked, hmu]) fun _ _ hk => nomatch hk
    · have hunlock : ChangesOk callback { s with reloadMu := none } :=
        h.setLock (by rw [State.muLocked, hmu]) fun _ _ hk => nomatch hk
      exact hunlock.frame rfl rfl rfl fun _ _ hk _ => hk
  | config =>
    simp only [step, Option.ite_none_left_eq_some, Option.some.injEq, Bool.not_eq_true] at hstep
    obtain ⟨hunlocked, rfl⟩ := hstep
    exact h.emit rfl ⟨h.current, fun hcallback => h.visible hcallback hunlocked⟩

private theorem shutdownsOk_step {a : Action} (h : ShutdownsOk s) (htimely : timely s a)
    (hstep : step callback s a = some s') :
    ShutdownsOk s' := by
  cases a with
  | callHandleChange =>
    obtain rfl := Option.some.inj hstep
    exact ⟨h.flag, h.drained, h.closed⟩
  | change i v => exact shutdownsOk_change h hstep
  | callShutdown =>
    obtain rfl := Option.some.inj hstep
    have hmem : ∀ (k : Nat) returned acquired, (s.shutdowns ++ [.start])[k]? = some (.running returned acquired) →
        s.shutdowns[k]? = some (.running returned acquired) := by
      intro k returned acquired hk
      exact (Pool.getElem?_concat_some hk).resolve_right fun heq => Shutdown.noConfusion heq.2
    exact ⟨fun k _ _ hk => h.flag k _ _ (hmem k _ _ hk), fun k _ hk => h.drained k _ (hmem k _ _ hk), h.closed⟩
  | shutdown j expired => exact shutdownsOk_shutdown h htimely hstep
  | barrier j => exact shutdownsOk_barrier h hstep
  | config =>
    simp only [step, Option.ite_none_left_eq_some, Option.some.injEq, Bool.not_eq_true] at hstep
    obtain ⟨-, rfl⟩ := hstep
    refine ⟨h.flag, h.drained, fun j hj => h.closed j ?_⟩
    simpa [State.emit] using hj

/-- The reloader is safe in every run in which no `Shutdown` gives up waiting while a `HandleChange` is past its last
look at the flag. -/
theorem reload_safe {as : List Action} (hrun : run (step callback) initial as = some s)
    (htimely : Meets (step callback) timely initial as) : Safe callback s := by
  have h₀ : ChangesOk callback initial ∧ ShutdownsOk initial := by
    refine ⟨⟨trivial, rfl, ?_, ?_, ?_, ?_, fun _ => rfl, ?_, ?_⟩, ⟨?_, ?_, ?_⟩⟩ <;> simp [initial, State.reloads]
  have hstep : ∀ t a t', ChangesOk callback t ∧ ShutdownsOk t → timely t a → step callback t a = some t' →
      ChangesOk callback t' ∧ ShutdownsOk t' := by
    rintro t a t' ⟨hchanges, hshutdowns⟩ ha hstep
    exact ⟨changesOk_step hchanges hshutdowns hstep, shutdownsOk_step hshutdowns ha hstep⟩
  exact (run_invariant_of_meets hstep h₀ htimely hrun).1.safe

/-- A reload with a `Shutdown` that waits for its end, and a second one that comes too late; the new configuration is
read. -/
def drained : List Action :=
  [.callHandleChange, .callHandleChange, .callShutdown, .change 0 .valid, .change 1 .valid, .change 0 .valid,
    .change 0 .valid, .change 0 .valid, .change 0 .valid, .shutdown 0 false, .change 0 .valid, .change 0 .valid,
    .change 0 .valid, .change 0 .valid, .config, .change 0 .valid, .barrier 0, .barrier 0, .shutdown 0 false,
    .change 1 .valid, .change 1 .valid, .change 1 .valid]

theorem reload_safe_drained : ∃ s, run (step true) initial drained = some s ∧
    s.log = [.shutdown 0, .read (some 0), .finished 0, .onReload 0, .swap 0, .validated 0 .valid] ∧ Safe true s := by
  obtain ⟨s, hrun, hs⟩ := exists_run (step true) initial drained
    (p := fun s => decide (s.log = [.shutdown 0, .read (some 0), .finished 0, .onReload 0, .swap 0,
      .validated 0 .valid]))
    (by decide)
  exact ⟨s, hrun, of_decide_eq_true hs, reload_safe hrun (by decide)⟩

/-- The context of the `Shutdown` ends when the reload has looked at the flag for the last time. -/
def expired : List Action :=
  [.callHandleChange, .callShutdown, .change 0 .valid, .change 0 .valid, .change 0 .valid, .change 0 .valid,
    .change 0 .valid, .shutdown 0 true, .shutdown 0 true, .change 0 .valid, .change 0 .valid]

/-- `onReload` starts after `Shutdown` has returned. -/
theorem reload_not_safe : ∃ s, run (step true) initial expired = some s ∧ ¬Safe true s := by
  obtain ⟨s, hrun, hs⟩ := exists_run (step true) initial expired
    (p := fun s => decide (s.log = [.onReload 0, .swap 0, .shutdown 0, .validated 0 .valid])) (by decide)
  refine ⟨s, hrun, fun h => ?_⟩
  exact h.closed [] [.swap 0, .shutdown 0, .validated 0 .valid] 0 (of_decide_eq_true hs) 0 (by simp)

end Noda.Devmode
