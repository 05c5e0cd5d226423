import Noda.Devmode.Reload
import Noda.Lib.FilePath

/-!
# The file watcher

The loop of the watcher and the reloader it calls.  A change to a config file, or a new directory, arms a timer and
stops the one before; a timer that fires calls `HandleChange` from a goroutine of its own, and stopping it is then too
late.  `Stop` closes the channels of the loop, which may see either of them first: only on `done` it stops the timer.

The timers are listed with the newest first, which is the one that the loop knows.  The other callers of the reloader
go on as before.  `changedAt` is a ghost: how many events the reloader had logged when the last change came.

`no_change_lost`: when everything has come to rest, the config is the newest one that was found valid, and the call that
the last change has led to has validated.
-/

namespace Noda.Devmode

open Transition

/-! ### The reloader -/

/-- The newest call whose validation succeeded. -/
def newestValid : List Event → Option Nat
  | [] => none
  | .validated i .valid :: _ => some i
  | _ :: log => newestValid log

/-- The call that is to swap the config. -/
def pendingValid : Option Holder → Option Nat
  | some (.change i .validated) => some i
  | some (.change i .swapping) => some i
  | _ => none

/-- The call is past its validation. -/
def Place.validated? : Place → Bool
  | .locked | .validating => false
  | _ => true

/-- As long as nothing shuts down, every call comes to its validation, and every valid config is taken, in their
order. -/
structure ReloadOk (s : State) : Prop where
  inside : ∀ i place, s.reloadMu = some (.change i place) → s.changes[i]? = some .inside
  known : ∀ e ∈ s.log, ∀ i, e.call = some i → i < s.changes.length
  current : s.config = lastSwap s.log
  newest : s.shuttingDown = false → newestValid s.log = (pendingValid s.reloadMu).or (lastSwap s.log)
  returned : s.shuttingDown = false → ∀ i : Nat, s.changes[i]? = some .returned → ∃ v, .validated i v ∈ s.log
  validated : s.shuttingDown = false → ∀ i place, s.reloadMu = some (.change i place) → place.validated? = true →
    ∃ v, .validated i v ∈ s.log

variable {callback : Bool} {s s' : State} {i : Nat} {v : Verdict} {place : Place}

private theorem reloadOk_initial : ReloadOk initial := ⟨nofun, nofun, rfl, fun _ => rfl, nofun, nofun⟩

/-- Nothing happens under the lock. -/
theorem ReloadOk.same (h : ReloadOk s) (hmu : s'.reloadMu = s.reloadMu) (hlog : s'.log = s.log)
    (hconfig : s'.config = s.config) (hflag : s'.shuttingDown = false → s.shuttingDown = false)
    (hlength : s.changes.length ≤ s'.changes.length)
    (hinside : ∀ i : Nat, s.changes[i]? = some .inside → s'.changes[i]? = some .inside)
    (hreturned : s'.shuttingDown = false → ∀ i : Nat, s'.changes[i]? = some .returned →
      s.changes[i]? = some .returned) :
    ReloadOk s' := by
  refine ⟨fun i place heq => hinside i (h.inside i place (hmu ▸ heq)), fun e he i hcall => ?_, ?_, fun hf => ?_,
    fun hf i hi => ?_, fun hf i place heq hplace => ?_⟩
  · exact (h.known e (hlog ▸ he) i hcall).trans_le hlength
  · rw [hconfig, hlog]
    exact h.current
  · rw [hlog, hmu]
    exact h.newest (hflag hf)
  · rw [hlog]
    exact h.returned (hflag hf) i (hreturned hf i hi)
  · rw [hlog]
    exact h.validated (hflag hf) i place (hmu ▸ heq) hplace

theorem ReloadOk.emit (h : ReloadOk s) {e : Event} (he : e.call = none) : ReloadOk (s.emit e) := by
  have hnewest : newestValid (e :: s.log) = newestValid s.log := by
    cases e with
    | validated i v => cases he
    | swap | onReload | finished | read | shutdown => rfl
  have hlast : lastSwap (e :: s.log) = lastSwap s.log := by
    cases e with
    | swap i => cases he
    | validated | onReload | finished | read | shutdown => rfl
  refine ⟨h.inside, fun e' he' i hcall => ?_, h.current.trans hlast.symm, fun hf => ?_, fun hf i hi => ?_,
    fun hf i place heq hplace => ?_⟩
  · rcases List.mem_cons.1 he' with rfl | he'
    · rw [he] at hcall
      cases hcall
    · exact h.known e' he' i hcall
  · show newestValid (e :: s.log) = (pendingValid s.reloadMu).or (lastSwap (e :: s.log))
    rw [hnewest, hlast]
    exact h.newest hf
  · obtain ⟨v, hv⟩ := h.returned hf i hi
    exact ⟨v, List.mem_cons_of_mem _ hv⟩
  · obtain ⟨v, hv⟩ := h.validated hf i place heq hplace
    exact ⟨v, List.mem_cons_of_mem _ hv⟩

/-- The call that has the lock goes to another place. -/
theorem ReloadOk.goto (h : ReloadOk s) (hmu : s.reloadMu = some (.change i place)) (place' : Place)
    (hpending : s.shuttingDown = false →
      pendingValid (some (.change i place')) = pendingValid (some (.change i place)))
    (hplace : s.shuttingDown = false → place'.validated? = true → place.validated? = true) :
    ReloadOk (s.goto i place') := by
  refine ⟨fun k p heq => ?_, h.known, h.current, fun hf => ?_, h.returned, fun hf k p heq hp => ?_⟩
  · cases heq
    exact h.inside i place hmu
  · have hnewest := h.newest hf
    rw [hmu] at hnewest
    show newestValid s.log = (pendingValid (some (.change i place'))).or (lastSwap s.log)
    rw [hpending hf]
    exact hnewest
  · cases heq
    exact h.validated hf i place hmu (hplace hf hp)

theorem ReloadOk.log (h : ReloadOk s) (hmu : s.reloadMu = some (.change i place)) (config : Option Nat) (e : Event)
    (place' : Place) (he : e.call = some i) (hconfig : config = lastSwap (e :: s.log))
    (hnewest : s.shuttingDown = false →
      newestValid (e :: s.log) = (pendingValid (some (.change i place'))).or (lastSwap (e :: s.log)))
    (hvalidated : s.shuttingDown = false → place'.validated? = true → ∃ v, .validated i v ∈ e :: s.log) :
    ReloadOk (({ s with config := config }.goto i place').emit e) := by
  have hinside := h.inside i place hmu
  refine ⟨fun k p heq => ?_, fun e' he' k hcall => ?_, hconfig, hnewest, fun hf k hk => ?_, fun hf k p heq hp => ?_⟩
  · cases heq
    exact hinside
  · rcases List.mem_cons.1 he' with rfl | he'
    · rw [he] at hcall
      cases hcall
      exact (List.getElem?_eq_some_iff.1 hinside).1
    · exact h.known e' he' k hcall
  · obtain ⟨v, hv⟩ := h.returned hf k hk
    exact ⟨v, List.mem_cons_of_mem _ hv⟩
  · cases heq
    exact hvalidated hf hp

private theorem reloadOk_inside (h : ReloadOk s) (hmu : s.reloadMu = some (.change i place)) :
    ReloadOk (insideStep callback s i v place) := by
  have hnewest : s.shuttingDown = false →
      newestValid s.log = (pendingValid (some (.change i place))).or (lastSwap s.log) := by
    intro hf
    rw [← hmu]
    exact h.newest hf
  have hvalidated : s.shuttingDown = false → place.validated? = true → ∀ e : Event, ∃ v,
      .validated i v ∈ e :: s.log := by
    intro hf hplace e
    obtain ⟨v, hv⟩ := h.validated hf i place hmu hplace
    exact ⟨v, List.mem_cons_of_mem _ hv⟩
  cases place with
  | locked =>
    refine h.goto hmu _ (fun hf => ?_) (fun hf => ?_)
    · rw [hf]; rfl
    · rw [hf]; exact id
  | validating =>
    refine h.log hmu s.config (.validated i v) _ rfl h.current (fun hf => ?_) fun _ _ => ⟨v, List.mem_cons_self⟩
    cases v with
    | valid => rfl
    | secretsFailed | invalid | dryRunFailed => exact hnewest hf
  | validated =>
    refine h.goto hmu _ (fun hf => ?_) (fun _ _ => rfl)
    rw [hf]; rfl
  | swapping => exact h.log hmu (some i) (.swap i) .swapped rfl rfl hnewest fun hf _ => hvalidated hf rfl _
  | swapped =>
    simp only [insideStep]
    split
    · exact h.log hmu s.config (.onReload i) .reloading rfl h.current hnewest fun hf _ => hvalidated hf rfl _
    · exact h.goto hmu .reloaded (fun _ => rfl) (fun _ _ => rfl)
  | reloading => exact h.log hmu s.config (.finished i) .reloaded rfl h.current hnewest fun hf _ => hvalidated hf rfl _
  | reloaded => exact h.goto hmu _ (fun _ => rfl) (fun _ _ => rfl)
  | leaving =>
    refine ⟨(fun _ _ heq => by cases heq), fun e he k hcall => ?_, h.current, hnewest, fun hf k hk => ?_,
      fun _ _ _ heq => by cases heq⟩
    · show k < (s.changes.set i .returned).length
      rw [List.length_set]
      exact h.known e he k hcall
    · rcases Pool.getElem?_set_some hk with ⟨rfl, -⟩ | ⟨-, hk⟩
      · exact h.validated hf k .leaving hmu rfl
      · exact h.returned hf k hk

private theorem reloadOk_step {a : Action} (h : ReloadOk s) (ha : step callback s a = some s') : ReloadOk s' := by
  cases a with
  | callHandleChange =>
    cases ha
    refine h.same rfl rfl rfl id (by simp) (fun i hi => ?_) fun _ i hi => ?_
    · exact (List.getElem?_append_left (List.getElem?_eq_some_iff.1 hi).1).trans hi
    · rcases Pool.getElem?_concat_some hi with hi | ⟨-, heq⟩
      · exact hi
      · cases heq
  | change i v =>
    rcases changeStep_cases ha with ⟨hi, rfl⟩ | ⟨hi, hmu, rfl⟩ | ⟨place, hmu, rfl⟩
    · refine h.same rfl rfl rfl id (by simp) (fun k hk => ?_) fun hf k hk => ?_
      · refine (List.getElem?_set_ne ?_).trans hk
        rintro rfl
        rw [hi] at hk
        cases hk
      · rcases Pool.getElem?_set_some hk with ⟨rfl, heq⟩ | ⟨-, hk⟩
        · rw [show s.shuttingDown = false from hf] at heq
          cases heq
        · exact hk
    · refine ⟨fun k place heq => ?_, fun e he k hcall => ?_, h.current, fun hf => ?_, fun hf k hk => ?_,
        fun _ k place heq hplace => ?_⟩
      · cases heq
        exact List.getElem?_set_self (List.getElem?_eq_some_iff.1 hi).1
      · show k < (s.changes.set i .inside).length
        rw [List.length_set]
        exact h.known e he k hcall
      · have hnewest := h.newest hf
        rw [hmu] at hnewest
        exact hnewest
      · rcases Pool.getElem?_set_some hk with ⟨-, heq⟩ | ⟨-, hk⟩
        · cases heq
        · exact h.returned hf k hk
      · cases heq
        cases hplace
    · exact reloadOk_inside h hmu
  | callShutdown =>
    cases ha
    exact h.same rfl rfl rfl id le_rfl (fun _ => id) fun _ _ => id
  | shutdown j expired =>
    rcases shutdownStep_cases ha with ⟨-, rfl⟩ | ⟨acquired, -, rfl⟩
    · exact h.same rfl rfl rfl (fun hf => by cases hf) le_rfl (fun _ => id) fun hf => by cases hf
    · have hsame : ReloadOk { s with shutdowns := s.shutdowns.set j (.running true acquired) } :=
        h.same rfl rfl rfl id le_rfl (fun _ => id) fun _ _ => id
      exact hsame.emit rfl
  | barrier j =>
    obtain ⟨returned, -, ⟨hmu, rfl⟩ | ⟨hmu, rfl⟩⟩ := barrierStep_cases ha
    · refine ⟨nofun, h.known, h.current, fun hf => ?_, h.returned, nofun⟩
      have hnewest := h.newest hf
      rw [hmu] at hnewest
      exact hnewest
    · refine ⟨nofun, h.known, h.current, fun hf => ?_, h.returned, nofun⟩
      have hnewest := h.newest hf
      rw [hmu] at hnewest
      exact hnewest
  | config =>
    simp only [step, Option.ite_none_left_eq_some] at ha
    obtain ⟨-, heq⟩ := ha
    cases heq
    exact h.emit rfl

private theorem insideStep_log (callback : Bool) (s : State) (i : Nat) (v : Verdict) (place : Place) :
    ((insideStep callback s i v place).log = s.log ∨ ∃ e, (insideStep callback s i v place).log = e :: s.log) ∧
      (insideStep callback s i v place).changes.length = s.changes.length := by
  cases place with
  | locked | validated | reloaded => exact ⟨.inl rfl, rfl⟩
  | validating | swapping | reloading => exact ⟨.inr ⟨_, rfl⟩, rfl⟩
  | swapped =>
    simp only [insideStep]
    split
    · exact ⟨.inr ⟨_, rfl⟩, rfl⟩
    · exact ⟨.inl rfl, rfl⟩
  | leaving => exact ⟨.inl rfl, List.length_set⟩

/-- A step of the reloader logs at most one event. -/
private theorem step_log {a : Action} (ha : step callback s a = some s') :
    (s'.log = s.log ∨ ∃ e, s'.log = e :: s.log) ∧ s.changes.length ≤ s'.changes.length := by
  cases a with
  | callHandleChange =>
    cases ha
    exact ⟨.inl rfl, by simp⟩
  | change i v =>
    rcases changeStep_cases ha with ⟨-, rfl⟩ | ⟨-, -, rfl⟩ | ⟨place, -, rfl⟩
    · exact ⟨.inl rfl, by simp⟩
    · exact ⟨.inl rfl, by simp⟩
    · obtain ⟨hlog, hlength⟩ := insideStep_log callback s i v place
      exact ⟨hlog, hlength.ge⟩
  | callShutdown =>
    cases ha
    exact ⟨.inl rfl, le_rfl⟩
  | shutdown j expired =>
    rcases shutdownStep_cases ha with ⟨-, rfl⟩ | ⟨acquired, -, rfl⟩
    · exact ⟨.inl rfl, le_rfl⟩
    · exact ⟨.inr ⟨_, rfl⟩, le_rfl⟩
  | barrier j =>
    obtain ⟨returned, -, ⟨-, rfl⟩ | ⟨-, rfl⟩⟩ := barrierStep_cases ha
    · exact ⟨.inl rfl, le_rfl⟩
    · exact ⟨.inl rfl, le_rfl⟩
  | config =>
    simp only [step, Option.ite_none_left_eq_some] at ha
    obtain ⟨-, heq⟩ := ha
    cases heq
    exact ⟨.inr ⟨_, rfl⟩, le_rfl⟩

/-! ### The watcher -/

/-- An event of the file system: its operations, and whether there is a directory of that name. -/
structure FsEvent where
  name : String
  write : Bool
  create : Bool
  rename : Bool
  remove : Bool
  isDir : Bool
  deriving DecidableEq, Repr

/-- The event makes the loop arm a timer. -/
def FsEvent.reloads (e : FsEvent) : Bool :=
  (e.write || e.create || e.rename || e.remove) && ((e.create && e.isDir) || FilePath.ext e.name = ".json")

/-- Where a timer is: `fired` is its goroutine before it calls `onChange`, and `called` has the number of the call of
`HandleChange` and how many events the reloader had logged. -/
inductive TimerPhase where
  | armed
  | stopped
  | fired
  | called (call logged : Nat)
  deriving DecidableEq, Repr

structure Timer where
  path : String
  phase : TimerPhase
  deriving DecidableEq, Repr

/-- `Stop` of a timer. -/
def Timer.stop (t : Timer) : Timer := if t.phase = .armed then { t with phase := .stopped } else t

structure Watch where
  /-- the loop runs -/
  running : Bool
  /-- `Stop` of the watcher was called -/
  stopping : Bool
  timers : List Timer
  changedAt : Nat
  reloader : State

inductive WatchAction where
  | event (e : FsEvent)
  | fire (k : Nat)
  | onChange (k : Nat)
  | stop
  | done
  | closed
  | reload (a : Action)
  deriving DecidableEq, Repr

/-- `timer.Stop()` in the loop. -/
def stopTimer : List Timer → List Timer
  | [] => []
  | t :: timers => t.stop :: timers

def watchStep (callback : Bool) (w : Watch) : WatchAction → Option Watch
  | .event e =>
    if w.running then
      if e.reloads then
        some { w with timers := ⟨e.name, .armed⟩ :: stopTimer w.timers, changedAt := w.reloader.log.length }
      else some w
    else none
  | .fire k =>
    match w.timers[k]? with
    | some ⟨path, .armed⟩ => some { w with timers := w.timers.set k ⟨path, .fired⟩ }
    | _ => none
  | .onChange k =>
    match w.timers[k]? with
    | some ⟨path, .fired⟩ =>
      (step callback w.reloader .callHandleChange).map fun reloader =>
        { w with
          timers := w.timers.set k ⟨path, .called w.reloader.changes.length w.reloader.log.length⟩, reloader }
    | _ => none
  | .stop => some { w with stopping := true }
  | .done => if w.running && w.stopping then some { w with running := false, timers := stopTimer w.timers } else none
  | .closed => if w.running && w.stopping then some { w with running := false } else none
  | .reload a => (step callback w.reloader a).map fun reloader => { w with reloader }

def watchInitial : Watch := ⟨true, false, [], 0, initial⟩

/-! ### What is known of the timers -/

/-- What the reloader has logged about the call of a timer came after the call. -/
structure TimerOk (s : State) (t : Timer) : Prop where
  call : ∀ c n, t.phase = .called c n → c < s.changes.length ∧ n ≤ s.log.length
  after : ∀ c n, t.phase = .called c n → ∀ later past v, s.log = later ++ .validated c v :: past → n ≤ past.length

/-- Only the newest timer is armed, and as long as the loop runs it is not stopped. -/
structure WatchOk (w : Watch) : Prop where
  reloader : ReloadOk w.reloader
  timers : ∀ t ∈ w.timers, TimerOk w.reloader t
  older : ∀ t ∈ w.timers.tail, t.phase ≠ .armed
  newest : w.running = true → ∀ t, w.timers.head? = some t → t.phase ≠ .stopped
  seen : ∀ t, w.timers.head? = some t → ∀ c n, t.phase = .called c n → w.changedAt ≤ n
  changed : w.changedAt ≤ w.reloader.log.length

private theorem step_log_length {a : Action} (ha : step callback s a = some s') : s.log.length ≤ s'.log.length := by
  rcases (step_log ha).1 with hlog | ⟨e, hlog⟩
  · rw [hlog]
  · rw [hlog, List.length_cons]
    omega

theorem TimerOk.step {t : Timer} {a : Action} (h : TimerOk s t) (ha : step callback s a = some s') : TimerOk s' t := by
  obtain ⟨hlog, hlength⟩ := step_log ha
  refine ⟨fun c n hphase => ?_, fun c n hphase later past v heq => ?_⟩
  · obtain ⟨hc, hn⟩ := h.call c n hphase
    exact ⟨by omega, hn.trans (step_log_length ha)⟩
  · rcases hlog with hlog | ⟨e, hlog⟩
    · exact h.after c n hphase later past v (hlog.symm.trans heq)
    · rw [hlog] at heq
      cases later with
      | nil =>
        cases heq
        exact (h.call c n hphase).2
      | cons e' later => exact h.after c n hphase later past v (List.cons.inj heq).2

private theorem timerOk_stop {t : Timer} (h : TimerOk s t) : TimerOk s t.stop := by
  unfold Timer.stop
  split
  · exact ⟨nofun, nofun⟩
  · exact h

private theorem stop_ne_armed (t : Timer) : t.stop.phase ≠ .armed := by
  unfold Timer.stop
  split
  · exact nofun
  · assumption

private theorem called_of_stop {t : Timer} {c n : Nat} (h : t.stop.phase = .called c n) : t.phase = .called c n := by
  unfold Timer.stop at h
  split at h
  · cases h
  · exact h

private theorem mem_stopTimer {t : Timer} {timers : List Timer} (h : t ∈ stopTimer timers) :
    t ∈ timers.tail ∨ ∃ t' ∈ timers, t = t'.stop := by
  cases timers with
  | nil => cases h
  | cons t' timers =>
    rcases List.mem_cons.1 h with rfl | h
    · exact .inr ⟨t', List.mem_cons_self, rfl⟩
    · exact .inl h

private theorem tail_stopTimer (timers : List Timer) : (stopTimer timers).tail = timers.tail := by
  cases timers with
  | nil => rfl
  | cons t timers => rfl

private theorem head?_stopTimer (timers : List Timer) : (stopTimer timers).head? = timers.head?.map Timer.stop := by
  cases timers with
  | nil => rfl
  | cons t timers => rfl

variable {w w' : Watch}

private theorem watchOk_initial : WatchOk watchInitial where
  reloader := reloadOk_initial
  timers := nofun
  older := nofun
  newest := nofun
  seen := nofun
  changed := le_rfl

theorem WatchOk.set (h : WatchOk w) {k : Nat} {t : Timer} (hk : w.timers[k]? = some t) (t' : Timer) (reloader : State)
    (hreloader : ReloadOk reloader) (htimers : ∀ t ∈ w.timers, TimerOk reloader t) (ht' : TimerOk reloader t')
    (harmed : t'.phase ≠ .armed) (hstopped : t'.phase ≠ .stopped)
    (hseen : ∀ c n, t'.phase = .called c n → w.changedAt ≤ n) (hlog : w.changedAt ≤ reloader.log.length) :
    WatchOk { w with timers := w.timers.set k t', reloader } := by
  have hhead : ∀ u, (w.timers.set k t').head? = some u → u = t' ∨ w.timers.head? = some u := by
    intro u hu
    rw [List.head?_eq_getElem?] at hu ⊢
    rcases Pool.getElem?_set_some hu with ⟨-, rfl⟩ | ⟨-, hu⟩
    · exact .inl rfl
    · exact .inr hu
  refine ⟨hreloader, fun u hu => ?_, fun u hu => ?_, fun hrun u hu => ?_, fun u hu => ?_, hlog⟩
  · rcases List.mem_or_eq_of_mem_set hu with hu | rfl
    · exact htimers u hu
    · exact ht'
  · have hmem : u ∈ w.timers.tail ∨ u = t' := by
      cases htimers : w.timers with
      | nil =>
        simp only [htimers, List.set_nil] at hu
        exact .inl hu
      | cons t₀ rest =>
        simp only [htimers] at hu
        cases k with
        | zero => exact .inl hu
        | succ k => exact List.mem_or_eq_of_mem_set hu
    rcases hmem with hu | rfl
    · exact h.older u hu
    · exact harmed
  · rcases hhead u hu with rfl | hu
    · exact hstopped
    · exact h.newest hrun u hu
  · rcases hhead u hu with rfl | hu
    · exact hseen
    · exact h.seen u hu

theorem WatchOk.timers_stopTimer (h : WatchOk w) : ∀ t ∈ stopTimer w.timers, TimerOk w.reloader t := by
  intro t ht
  rcases mem_stopTimer ht with ht | ⟨t', ht', rfl⟩
  · exact h.timers t (List.mem_of_mem_tail ht)
  · exact timerOk_stop (h.timers t' ht')

theorem WatchOk.arm (h : WatchOk w) (path : String) :
    WatchOk { w with timers := ⟨path, .armed⟩ :: stopTimer w.timers, changedAt := w.reloader.log.length } := by
  refine ⟨h.reloader, fun t ht => ?_, fun t ht => ?_, fun _ t ht => ?_, fun t ht => ?_, le_rfl⟩
  · rcases List.mem_cons.1 ht with rfl | ht
    · exact ⟨nofun, nofun⟩
    · exact h.timers_stopTimer t ht
  · rcases mem_stopTimer ht with ht | ⟨t', -, rfl⟩
    · exact h.older t ht
    · exact stop_ne_armed t'
  · cases ht
    exact nofun
  · cases ht
    exact nofun

theorem WatchOk.call (h : WatchOk w) {k : Nat} {path : String} {reloader : State}
    (hk : w.timers[k]? = some ⟨path, .fired⟩) (hstep : step callback w.reloader .callHandleChange = some reloader) :
    WatchOk { w with
      timers := w.timers.set k ⟨path, .called w.reloader.changes.length w.reloader.log.length⟩, reloader } := by
  have hok := reloadOk_step h.reloader hstep
  have htimers : ∀ t ∈ w.timers, TimerOk reloader t := fun t ht => (h.timers t ht).step hstep
  cases hstep
  refine h.set hk ⟨path, .called w.reloader.changes.length w.reloader.log.length⟩ _ hok htimers ⟨?_, ?_⟩ nofun nofun
    ?_ h.changed
  · intro c n heq
    cases heq
    exact ⟨by simp, le_rfl⟩
  · intro c n heq later past v hlog
    cases heq
    have hmem : .validated w.reloader.changes.length v ∈ w.reloader.log := by
      rw [show w.reloader.log = _ from hlog]
      simp
    exact absurd (h.reloader.known _ hmem _ rfl) (lt_irrefl _)
  · intro c n heq
    cases heq
    exact h.changed

theorem WatchOk.done (h : WatchOk w) : WatchOk { w with running := false, timers := stopTimer w.timers } := by
  refine ⟨h.reloader, h.timers_stopTimer, fun t ht => ?_, nofun, fun t ht c n hphase => ?_, h.changed⟩
  · rw [tail_stopTimer] at ht
    exact h.older t ht
  · rw [head?_stopTimer] at ht
    obtain ⟨t', ht', rfl⟩ := Option.map_eq_some_iff.1 ht
    exact h.seen t' ht' c n (called_of_stop hphase)

private theorem watchOk_step {a : WatchAction} (h : WatchOk w) (ha : watchStep callback w a = some w') :
    WatchOk w' := by
  cases a with
  | event e =>
    simp only [watchStep] at ha
    split at ha
    · split at ha
      · cases ha
        exact h.arm e.name
      · cases ha
        exact h
    · cases ha
  | fire k =>
    simp only [watchStep] at ha
    split at ha
    · rename_i path hk
      cases ha
      exact h.set hk ⟨path, .fired⟩ w.reloader h.reloader h.timers ⟨nofun, nofun⟩ nofun nofun nofun h.changed
    · cases ha
  | onChange k =>
    simp only [watchStep] at ha
    split at ha
    · rename_i path hk
      obtain ⟨reloader, hstep, rfl⟩ := Option.map_eq_some_iff.1 ha
      exact h.call hk hstep
    · cases ha
  | stop =>
    cases ha
    exact ⟨h.reloader, h.timers, h.older, h.newest, h.seen, h.changed⟩
  | done =>
    simp only [watchStep, Option.ite_none_right_eq_some] at ha
    obtain ⟨-, heq⟩ := ha
    cases heq
    exact h.done
  | closed =>
    simp only [watchStep, Option.ite_none_right_eq_some] at ha
    obtain ⟨-, heq⟩ := ha
    cases heq
    exact ⟨h.reloader, h.timers, h.older, nofun, h.seen, h.changed⟩
  | reload a =>
    obtain ⟨reloader, hstep, rfl⟩ := Option.map_eq_some_iff.1 ha
    exact ⟨reloadOk_step h.reloader hstep, fun t ht => (h.timers t ht).step hstep, h.older, h.newest, h.seen,
      h.changed.trans (step_log_length hstep)⟩

/-! ### At rest -/

/-- The watcher runs, no timer is on its way, every call has returned, and nothing shuts down. -/
structure AtRest (w : Watch) : Prop where
  running : w.running = true
  timers : ∀ t ∈ w.timers, t.phase ≠ .armed ∧ t.phase ≠ .fired
  returned : ∀ c ∈ w.reloader.changes, c = .returned
  unlocked : w.reloader.reloadMu = none
  flag : w.reloader.shuttingDown = false

/-- However the changes, the timers and the calls follow each other: at rest, the config is the newest one that was
found valid, and the timer of the last change has called `HandleChange`, which has validated since. -/
theorem no_change_lost {callback : Bool} {w : Watch} (h : Reachable (watchStep callback) watchInitial w)
    (hrest : AtRest w) : w.reloader.config = newestValid w.reloader.log ∧
      ∀ t, w.timers.head? = some t → ∃ c n v later past, t.phase = .called c n ∧ w.changedAt ≤ n ∧ n ≤ past.length ∧
        w.reloader.log = later ++ .validated c v :: past := by
  have hok : WatchOk w := h.invariant watchOk_initial fun w a w' => watchOk_step
  constructor
  · have hnewest := hok.reloader.newest hrest.flag
    rw [hrest.unlocked] at hnewest
    rw [hok.reloader.current, hnewest]
    rfl
  · intro t hhead
    have hmem : t ∈ w.timers := List.mem_of_head? hhead
    have hphase := hrest.timers t hmem
    cases ht : t.phase with
    | armed => exact absurd ht hphase.1
    | fired => exact absurd ht hphase.2
    | stopped => exact absurd ht (hok.newest hrest.running t hhead)
    | called c n =>
      have hlt := ((hok.timers t hmem).call c n ht).1
      have hreturned : w.reloader.changes[c]? = some .returned := by
        rw [List.getElem?_eq_getElem hlt, hrest.returned _ (List.getElem_mem hlt)]
      obtain ⟨v, hv⟩ := hok.reloader.returned hrest.flag c hreturned
      obtain ⟨later, past, hlog⟩ := List.append_of_mem hv
      have hafter := (hok.timers t hmem).after c n ht later past v hlog
      exact ⟨c, n, v, later, past, rfl, hok.seen t hhead c n ht, hafter, hlog⟩

def savedRoute : FsEvent := ⟨"config/routes/users.json", true, false, false, false, false⟩

/-- A file is saved twice in a row; the second timer fires, and its call goes through. -/
def savedTwice : List WatchAction :=
  [.event savedRoute, .event savedRoute, .fire 0, .onChange 0] ++ List.replicate 10 (.reload (.change 0 .valid))

theorem no_change_lost_saved : ∃ w t, run (watchStep true) watchInitial savedTwice = some w ∧ AtRest w ∧
    w.timers.head? = some t ∧ w.reloader.config = newestValid w.reloader.log ∧
      ∃ c n v later past, t.phase = .called c n ∧ w.changedAt ≤ n ∧ n ≤ past.length ∧
        w.reloader.log = later ++ .validated c v :: past := by
  obtain ⟨w, hrun, hw⟩ := exists_run (watchStep true) watchInitial savedTwice
    (p := fun w => decide (w.running = true ∧ w.timers = [⟨savedRoute.name, .called 0 0⟩, ⟨savedRoute.name, .stopped⟩] ∧
      w.reloader.changes = [.returned] ∧ w.reloader.reloadMu = none ∧ w.reloader.shuttingDown = false))
    (by decide +kernel)
  obtain ⟨hrunning, htimers, hchanges, hmu, hflag⟩ := of_decide_eq_true hw
  have hrest : AtRest w := ⟨hrunning, by rw [htimers]; simp, by rw [hchanges]; simp, hmu, hflag⟩
  have hhead : w.timers.head? = some ⟨savedRoute.name, .called 0 0⟩ := by rw [htimers]; rfl
  obtain ⟨hconfig, hvalidated⟩ := no_change_lost ⟨_, hrun⟩ hrest
  exact ⟨w, _, hrun, hrest, hhead, hconfig, hvalidated _ hhead⟩

end Noda.Devmode
