import Noda.Lib.Pool
import Noda.Lib.Transition
import Mathlib.Data.List.Range

/-!
# The lifecycle manager

`StartAll` and `StopAll` of the lifecycle manager, with one call of `StartAll` and any number of calls of `StopAll` side
by side.  Every block under the lock and every `Start` or `Stop` of a component is one step, with any result.  A
component is given by its place in the order of registration.  The calls of `Stop` are recorded with the call of
`StopAll` that made them (`none` for `StartAll` itself), the newest first; `succeeded` are the components whose `Start`
has returned nil.

A component whose `Start` has returned nil is at one place at any time: counted by `started`, in the hand of `StartAll`,
in the batch of a `StopAll`, or stopped (`Inv.conserved`).  From this follows what the manager promises
(`lifecycle_safe`).
-/

namespace Noda.Lifecycle

open Transition

/-- The errors of `StartAll`. -/
inductive StartError where
  | aborted
  | starting (i : Nat)
  deriving DecidableEq, Repr

/-- Where the call of `StartAll` is. -/
inductive StartPc where
  | idle
  | checking (i : Nat)
  | starting (i : Nat)
  | recording (i : Nat) (ok : Bool)
  | stopping (i : Nat)
  | rechecking
  | rollback (err : StartError)
  | rollingBack (err : StartError) (call : Nat)
  | returned (err : Option StartError)
  deriving DecidableEq, Repr

/-- A call of `StopAll`: whether it began after `StartAll` had returned nil, whether it has taken its batch, and what is
left of the batch, in the order in which it will be stopped. -/
structure StopCall where
  late : Bool
  entered : Bool
  batch : List Nat
  deriving DecidableEq, Repr

/-- The fields of the manager, the calls on it, and the record. -/
structure State where
  started : Nat
  shuttingDown : Bool
  startAll : StartPc
  stopAlls : List StopCall
  succeeded : List Nat
  stops : List (Option Nat × Nat)

def initial : State := ⟨0, false, .idle, [], [], []⟩

/-- A step of `StartAll`, a new call of `StopAll`, or a step of one; `ok` is the result of the component. -/
inductive Action where
  | startAll (ok : Bool)
  | callStopAll
  | stopAll (call : Nat)
  deriving DecidableEq, Repr

variable (n : Nat)

/-- The loop over the components, before the next one. -/
def next (i : Nat) : StartPc := if i < n then .checking i else .rechecking

/-- `StartAll` for `n` components.  `rollback` is a call of `StopAll` that it waits for. -/
def startAllStep (s : State) (ok : Bool) : Option State :=
  match s.startAll with
  | .idle => some { s with startAll := next n 0 }
  | .checking i => some { s with startAll := if s.shuttingDown then .rollback .aborted else .starting i }
  | .starting i =>
    some { s with startAll := .recording i ok, succeeded := if ok then s.succeeded ++ [i] else s.succeeded }
  | .recording i ok =>
    if ok then
      if s.shuttingDown then some { s with startAll := .stopping i }
      else some { s with started := s.started + 1, startAll := next n (i + 1) }
    else some { s with startAll := .rollback (.starting i) }
  | .stopping i => some { s with startAll := .rollback .aborted, stops := (none, i) :: s.stops }
  | .rechecking => some { s with startAll := if s.shuttingDown then .rollback .aborted else .returned none }
  | .rollback err =>
    some { s with startAll := .rollingBack err s.stopAlls.length, stopAlls := s.stopAlls ++ [⟨false, false, []⟩] }
  | .rollingBack err call =>
    match s.stopAlls[call]? with
    | some ⟨_, true, []⟩ => some { s with startAll := .returned (some err) }
    | _ => none
  | .returned _ => none

/-- A call of `StopAll` takes its batch, or stops the next component. -/
def stopAllStep (s : State) (call : Nat) : Option State :=
  match s.stopAlls[call]? with
  | none => none
  | some ⟨late, false, _⟩ =>
    some { s with
      shuttingDown := true
      started := 0
      stopAlls := s.stopAlls.set call ⟨late, true, (List.range s.started).reverse⟩ }
  | some ⟨late, true, i :: rest⟩ =>
    some { s with stopAlls := s.stopAlls.set call ⟨late, true, rest⟩, stops := (some call, i) :: s.stops }
  | some ⟨_, true, []⟩ => none

def step (s : State) : Action → Option State
  | .startAll ok => startAllStep n s ok
  | .callStopAll => some { s with stopAlls := s.stopAlls ++ [⟨s.startAll = .returned none, false, []⟩] }
  | .stopAll call => stopAllStep s call

/-! ### The invariant -/

/-- The components for which a call of `StopAll` has called `Stop`, the newest first. -/
def stopsBy (stops : List (Option Nat × Nat)) (call : Nat) : List Nat :=
  (stops.filter (·.1 = some call)).map Prod.snd

/-- The component that `StartAll` has started and not yet counted or stopped. -/
def held : StartPc → List Nat
  | .recording i true => [i]
  | .stopping i => [i]
  | _ => []

/-- `StartAll` has started `k` components when it is there. -/
def After : StartPc → Nat → Prop
  | .idle, k => k = 0
  | .checking i, k => k = i ∧ i < n
  | .starting i, k => k = i ∧ i < n
  | .recording i ok, k => k = (if ok then i + 1 else i) ∧ i < n
  | .stopping i, k => k = i + 1 ∧ i < n
  | .rechecking, k => k = n
  | .returned none, k => k = n
  | .rollback _, _ => True
  | .rollingBack _ _, _ => True
  | .returned (some _), _ => True

/-- `StartAll` is there only if something shuts down. -/
def StartPc.isDown : StartPc → Bool
  | .stopping _ => true
  | .returned (some _) => true
  | _ => false

/-- What is known of a call of `StopAll`: it takes the components below some `k` and stops them from the last to the
first. -/
structure CallOk (stops : List (Option Nat × Nat)) (shuttingDown : Bool) (call : Nat) (c : StopCall) : Prop where
  fresh : c.entered = false → c.batch = [] ∧ stopsBy stops call = []
  entered : c.entered = true → shuttingDown = true
  order : ∃ k ≤ n, (stopsBy stops call).reverse ++ c.batch = (List.range k).reverse

structure Inv (s : State) : Prop where
  /-- every component that was started is at one place -/
  conserved : (List.range s.started ++ held s.startAll ++ s.stopAlls.flatMap StopCall.batch ++
    s.stops.map Prod.snd).Perm s.succeeded
  /-- the components are started in order, and counted as long as nothing shuts down -/
  reached : ∃ k ≤ n, s.succeeded = List.range k ∧ After n s.startAll k ∧
    (s.shuttingDown = false → s.started + (held s.startAll).length = k)
  down : s.shuttingDown = true → s.started = 0
  isDown : s.startAll.isDown = true → s.shuttingDown = true
  calls : ∀ (call : Nat) c, s.stopAlls[call]? = some c → CallOk n s.stops s.shuttingDown call c
  callers : ∀ call i, (some call, i) ∈ s.stops → call < s.stopAlls.length

variable {n} {s s' : State}

/-- The slice of the components that `StopAll` takes is in range. -/
theorem Inv.started_le (h : Inv n s) : s.started ≤ n := by
  cases hd : s.shuttingDown with
  | true => rw [h.down hd]; exact Nat.zero_le n
  | false =>
    obtain ⟨k, hk, -, -, hstarted⟩ := h.reached
    have := hstarted hd
    omega

private theorem after_next {i : Nat} (h : i ≤ n) : After n (next n i) i := by
  unfold next
  split_ifs with hi
  · exact ⟨rfl, hi⟩
  · exact Nat.le_antisymm h (Nat.le_of_not_lt hi)

@[simp] theorem held_next {i : Nat} : held (next n i) = [] := by
  unfold next
  split_ifs
  · rfl
  · rfl

@[simp] theorem isDown_next {i : Nat} : (next n i).isDown = false := by
  unfold next
  split_ifs
  · rfl
  · rfl

theorem inv_initial : Inv n initial where
  conserved := by simp [initial, held]
  reached := ⟨0, Nat.zero_le n, rfl, rfl, fun _ => rfl⟩
  down := fun h => nomatch h
  isDown := fun h => nomatch h
  calls := fun _ _ h => nomatch h
  callers := fun _ _ h => nomatch h

/-- A step of `StartAll` that changes only where it is. -/
private theorem Inv.goto (h : Inv n s) {pc : StartPc} (hheld : held pc = held s.startAll)
    (hafter : ∀ k ≤ n, After n s.startAll k → After n pc k) (hdown : pc.isDown = true → s.shuttingDown = true) :
    Inv n { s with startAll := pc } where
  conserved := by
    rw [show held pc = held s.startAll from hheld]
    exact h.conserved
  reached := by
    obtain ⟨k, hk, hs, ha, hst⟩ := h.reached
    exact ⟨k, hk, hs, hafter k hk ha, hheld ▸ hst⟩
  down := h.down
  isDown := hdown
  calls := h.calls
  callers := h.callers

private theorem Inv.call (h : Inv n s) (late : Bool) :
    Inv n { s with stopAlls := s.stopAlls ++ [⟨late, false, []⟩] } where
  conserved := by simpa using h.conserved
  reached := h.reached
  down := h.down
  isDown := h.isDown
  calls := by
    intro call c hc
    rcases Pool.getElem?_concat_some hc with hc | ⟨hlength, rfl⟩
    · exact h.calls call c hc
    · -- nothing has been stopped by a call that is not there yet
      have hnone : stopsBy s.stops call = [] := by
        rw [stopsBy, List.map_eq_nil_iff, List.filter_eq_nil_iff]
        rintro ⟨caller, i⟩ hmem hcaller
        exact Nat.ne_of_lt (h.callers call i (of_decide_eq_true hcaller ▸ hmem)) hlength
      exact ⟨fun _ => ⟨rfl, hnone⟩, (fun he => nomatch he), 0, Nat.zero_le n, by simp [hnone]⟩
  callers := by
    intro call i hmem
    rw [List.length_append]
    exact Nat.lt_of_lt_of_le (h.callers call i hmem) (Nat.le_add_right _ _)

private theorem Inv.start (h : Inv n s) {i : Nat} (hs : s.startAll = .starting i) (ok : Bool) :
    Inv n { s with startAll := .recording i ok, succeeded := if ok then s.succeeded ++ [i] else s.succeeded } where
  conserved := by
    have hc := h.conserved
    rw [hs] at hc
    cases ok with
    | false => simpa [held] using hc
    | true =>
      simp only [held, List.append_nil, if_true] at hc ⊢
      refine List.Perm.trans ?_ (hc.append_right [i])
      simp only [List.append_assoc]
      exact List.Perm.append_left _ ((@List.perm_append_comm _ [i] _).trans (by simp))
  reached := by
    obtain ⟨k, hk, hsucc, ha, hst⟩ := h.reached
    rw [hs] at ha hst
    obtain ⟨rfl, hi⟩ := ha
    refine ⟨if ok then k + 1 else k, ?_, ?_, ⟨rfl, hi⟩, fun hd => ?_⟩
    · cases ok with
      | false => exact hk
      | true => exact hi
    · cases ok with
      | false => exact hsucc
      | true => simp [hsucc, List.range_succ]
    · have := hst hd
      cases ok with
      | false => exact this
      | true => simpa [held] using this
  down := h.down
  isDown := fun hd => nomatch hd
  calls := h.calls
  callers := h.callers

private theorem Inv.count (h : Inv n s) {i : Nat} (hs : s.startAll = .recording i true) (hd : s.shuttingDown = false) :
    Inv n { s with started := s.started + 1, startAll := next n (i + 1) } := by
  obtain ⟨k, hk, hsucc, ha, hst⟩ := h.reached
  rw [hs] at ha hst
  obtain ⟨rfl, hi⟩ := ha
  have hstarted : s.started = i := by simpa [held] using hst hd
  exact {
    conserved := by
      have hc := h.conserved
      rw [hs, hstarted] at hc
      show (List.range (s.started + 1) ++ held (next n (i + 1)) ++ _ ++ _).Perm _
      rw [held_next, hstarted, List.range_succ, List.append_nil]
      exact hc
    reached := ⟨i + 1, hi, hsucc, after_next hi, fun _ => by simp [hstarted]⟩
    down := fun hdown => absurd (hd.symm.trans hdown) (by decide)
    isDown := fun hdown => by simp at hdown
    calls := h.calls
    callers := h.callers }

private theorem Inv.stop (h : Inv n s) {i : Nat} (hs : s.startAll = .stopping i) :
    Inv n { s with startAll := .rollback .aborted, stops := (none, i) :: s.stops } := by
  have hd : s.shuttingDown = true := h.isDown (by rw [hs]; rfl)
  have hby : ∀ call, stopsBy ((none, i) :: s.stops) call = stopsBy s.stops call := fun call => by simp [stopsBy]
  exact {
    conserved := by
      have hc := h.conserved
      rw [hs] at hc
      refine List.Perm.trans ?_ hc
      simp only [held, List.append_nil, List.map_cons, List.append_assoc]
      exact List.Perm.append_left _ List.perm_middle
    reached := by
      obtain ⟨k, hk, hsucc, -, -⟩ := h.reached
      exact ⟨k, hk, hsucc, trivial, fun hno => absurd (hno.symm.trans hd) (by decide)⟩
    down := h.down
    isDown := fun _ => hd
    calls := fun call c hc => by
      obtain ⟨hfresh, hentered, horder⟩ := h.calls call c hc
      exact ⟨by rw [hby]; exact hfresh, hentered, by rw [hby]; exact horder⟩
    callers := by
      intro call j hmem
      rcases List.mem_cons.1 hmem with hj | hmem
      · cases hj
      · exact h.callers call j hmem }

private theorem Inv.enter (h : Inv n s) {call : Nat} {c : StopCall} (hc : s.stopAlls[call]? = some c)
    (he : c.entered = false) : Inv n { s with
      shuttingDown := true
      started := 0
      stopAlls := s.stopAlls.set call ⟨c.late, true, (List.range s.started).reverse⟩ } where
  conserved := by
    obtain ⟨rest, hold, hnew⟩ := Pool.flatMap_set_perm StopCall.batch hc
      ⟨c.late, true, (List.range s.started).reverse⟩
    have hbatch := ((h.calls call c hc).fresh he).1
    rw [hbatch, List.nil_append] at hold
    refine List.Perm.trans ?_ h.conserved
    simp only [List.range_zero, List.nil_append]
    refine List.Perm.append_right _ ?_
    have hbatch' := hnew.trans (List.Perm.append_right rest (List.reverse_perm (List.range s.started)))
    have hswap : (held s.startAll ++ (List.range s.started ++ rest)).Perm
        (List.range s.started ++ held s.startAll ++ rest) := by
      rw [← List.append_assoc]
      exact List.Perm.append_right _ List.perm_append_comm
    exact (List.Perm.append_left _ hbatch').trans (hswap.trans (List.Perm.append_left _ hold.symm))
  reached := by
    obtain ⟨k, hk, hsucc, ha, -⟩ := h.reached
    exact ⟨k, hk, hsucc, ha, fun hno => nomatch hno⟩
  down := fun _ => rfl
  isDown := fun _ => rfl
  calls := by
    intro call' c' hc'
    rw [List.getElem?_set] at hc'
    split_ifs at hc' with heq hlt
    · subst heq
      cases hc'
      have hnone := ((h.calls call c hc).fresh he).2
      exact ⟨(fun hf => nomatch hf), fun _ => rfl, s.started, h.started_le, by simp [hnone]⟩
    · obtain ⟨hfresh, -, horder⟩ := h.calls call' c' hc'
      exact ⟨hfresh, fun _ => rfl, horder⟩
  callers := by
    intro call' i hmem
    rw [List.length_set]
    exact h.callers call' i hmem

private theorem Inv.stopNext (h : Inv n s) {call i : Nat} {c : StopCall} {rest : List Nat}
    (hc : s.stopAlls[call]? = some c) (he : c.entered = true) (hb : c.batch = i :: rest) : Inv n { s with
      stopAlls := s.stopAlls.set call ⟨c.late, true, rest⟩
      stops := (some call, i) :: s.stops } where
  conserved := by
    obtain ⟨others, hold, hnew⟩ := Pool.flatMap_set_perm StopCall.batch hc ⟨c.late, true, rest⟩
    rw [hb] at hold
    refine List.Perm.trans ?_ h.conserved
    simp only [List.append_assoc, List.map_cons]
    refine List.Perm.append_left _ (List.Perm.append_left _ ?_)
    have hmoved : (rest ++ others ++ i :: s.stops.map Prod.snd).Perm (i :: rest ++ others ++ s.stops.map Prod.snd) :=
      List.perm_middle
    exact (List.Perm.append_right _ hnew).trans (hmoved.trans (List.Perm.append_right _ hold.symm))
  reached := h.reached
  down := h.down
  isDown := h.isDown
  calls := by
    intro call' c' hc'
    rw [List.getElem?_set] at hc'
    split_ifs at hc' with heq hlt
    · subst heq
      cases hc'
      obtain ⟨-, hentered, k, hk, horder⟩ := h.calls call c hc
      refine ⟨(fun hf => nomatch hf), fun _ => hentered he, k, hk, ?_⟩
      rw [← horder, hb]
      simp [stopsBy]
    · obtain ⟨hfresh, hentered, horder⟩ := h.calls call' c' hc'
      have hby : stopsBy ((some call, i) :: s.stops) call' = stopsBy s.stops call' := by simp [stopsBy, heq]
      exact ⟨by rw [hby]; exact hfresh, hentered, by rw [hby]; exact horder⟩
  callers := by
    intro call' j hmem
    rw [List.length_set]
    rcases List.mem_cons.1 hmem with hj | hmem
    · cases hj
      exact (List.getElem?_eq_some_iff.1 hc).1
    · exact h.callers call' j hmem

private theorem inv_startAllStep (h : Inv n s) {ok : Bool} (hstep : startAllStep n s ok = some s') : Inv n s' := by
  unfold startAllStep at hstep
  cases hs : s.startAll with
  | idle =>
    rw [hs] at hstep
    cases hstep
    refine h.goto (by rw [hs, held_next]; rfl) ?_ (by simp)
    rintro k hk ha
    rw [hs] at ha
    cases ha
    exact after_next (Nat.zero_le n)
  | checking i =>
    rw [hs] at hstep
    cases hstep
    split_ifs
    · exact h.goto (by rw [hs]; rfl) (fun _ _ _ => trivial) (fun hdown => nomatch hdown)
    · refine h.goto (by rw [hs]; rfl) (fun k _ ha => ?_) (fun hdown => nomatch hdown)
      rw [hs] at ha
      exact ha
  | starting i =>
    rw [hs] at hstep
    cases hstep
    exact h.start hs ok
  | recording i ok' =>
    rw [hs] at hstep
    cases ok' with
    | false =>
      cases hstep
      exact h.goto (by rw [hs]; rfl) (fun _ _ _ => trivial) (fun hdown => nomatch hdown)
    | true =>
      dsimp only at hstep
      rw [if_pos rfl] at hstep
      split_ifs at hstep with hd
      · cases hstep
        refine h.goto (by rw [hs]; rfl) (fun k _ ha => ?_) (fun _ => hd)
        rw [hs] at ha
        exact ha
      · cases hstep
        exact h.count hs (by simpa using hd)
  | stopping i =>
    rw [hs] at hstep
    cases hstep
    exact h.stop hs
  | rechecking =>
    rw [hs] at hstep
    cases hstep
    split_ifs
    · exact h.goto (by rw [hs]; rfl) (fun _ _ _ => trivial) (fun hdown => nomatch hdown)
    · refine h.goto (by rw [hs]; rfl) (fun k _ ha => ?_) (fun hdown => nomatch hdown)
      rw [hs] at ha
      exact ha
  | rollback err =>
    rw [hs] at hstep
    cases hstep
    have hgoto : Inv n { s with startAll := .rollingBack err s.stopAlls.length } :=
      h.goto (by rw [hs]; rfl) (fun _ _ _ => trivial) (fun hdown => nomatch hdown)
    exact hgoto.call false
  | rollingBack err call =>
    rw [hs] at hstep
    dsimp only at hstep
    split at hstep
    · rename_i late hc
      cases hstep
      exact h.goto (by rw [hs]; rfl) (fun _ _ _ => trivial) (fun _ => (h.calls call _ hc).entered rfl)
    · cases hstep
  | returned err =>
    rw [hs] at hstep
    cases hstep

private theorem inv_stopAllStep (h : Inv n s) {call : Nat} (hstep : stopAllStep s call = some s') : Inv n s' := by
  unfold stopAllStep at hstep
  split at hstep
  · cases hstep
  · rename_i late batch hc
    cases hstep
    exact h.enter hc rfl
  · rename_i late i rest hc
    cases hstep
    exact h.stopNext hc rfl rfl
  · cases hstep

theorem inv_of_reachable (h : Reachable (step n) initial s) : Inv n s := by
  refine h.invariant inv_initial fun s a s' hs hstep => ?_
  cases a with
  | startAll ok => exact inv_startAllStep hs hstep
  | callStopAll =>
    cases hstep
    exact hs.call _
  | stopAll call => exact inv_stopAllStep hs hstep

/-! ### What the manager promises -/

def StopCall.finished (c : StopCall) : Bool := c.entered && c.batch.isEmpty

structure LifecycleSafe (n : Nat) (s : State) : Prop where
  /-- `Stop` is called at most once for a component -/
  stop_once : ∀ i, (s.stops.map Prod.snd).count i ≤ 1
  /-- and only after its `Start` has returned nil -/
  only_started : ∀ i ∈ s.stops.map Prod.snd, i ∈ s.succeeded
  /-- when `StartAll` has failed, or a `StopAll` after its success has finished, every started component has been
  stopped or is in the batch of a running `StopAll` -/
  settled : (∃ err, s.startAll = .returned (some err)) ∨ (∃ c ∈ s.stopAlls, c.late = true ∧ c.finished = true) →
    ∀ i ∈ s.succeeded, (s.stops.map Prod.snd).count i = 1 ∨ ∃ c ∈ s.stopAlls, i ∈ c.batch
  /-- the slice of the started components is in range -/
  in_range : s.started ≤ n
  /-- every `StopAll` stops the components of its batch in the reverse order of their registration -/
  reverse_order : ∀ (call : Nat) c, s.stopAlls[call]? = some c →
    ∃ k ≤ n, (stopsBy s.stops call).reverse ++ c.batch = (List.range k).reverse

private theorem Inv.nodup (h : Inv n s) : s.succeeded.Nodup := by
  obtain ⟨k, -, hsucc, -⟩ := h.reached
  rw [hsucc]
  exact List.nodup_range

/-- `StartAll` calls `StopAll` to roll back, and leaves the other calls alone. -/
private theorem startAllStep_stopAlls {ok : Bool} (hstep : startAllStep n s ok = some s') :
    s'.stopAlls = s.stopAlls ∨ s'.stopAlls = s.stopAlls ++ [⟨false, false, []⟩] := by
  unfold startAllStep at hstep
  split at hstep
  · cases hstep; exact .inl rfl
  · cases hstep; exact .inl rfl
  · cases hstep; exact .inl rfl
  · split_ifs at hstep
    · cases hstep; exact .inl rfl
    · cases hstep; exact .inl rfl
    · cases hstep; exact .inl rfl
  · cases hstep; exact .inl rfl
  · cases hstep; exact .inl rfl
  · cases hstep; exact .inr rfl
  · split at hstep
    · cases hstep; exact .inl rfl
    · cases hstep
  · cases hstep

/-- A call that began after the success of `StartAll` finds it returned. -/
private theorem late_of_reachable (h : Reachable (step n) initial s) :
    ∀ c ∈ s.stopAlls, c.late = true → s.startAll = .returned none := by
  refine h.invariant (P := fun s => ∀ c ∈ s.stopAlls, c.late = true → s.startAll = .returned none)
    (fun _ hc => nomatch hc) fun s a s' hs hstep => ?_
  cases a with
  | startAll ok =>
    -- `StartAll` takes a step, so it has not returned and no call is late
    have hno : ∀ c ∈ s.stopAlls, c.late = false := by
      intro c hc
      by_contra hl
      have hret := hs c hc (by simpa using hl)
      simp [step, startAllStep, hret] at hstep
    intro c hc hl
    rcases startAllStep_stopAlls hstep with heq | heq
    · rw [heq] at hc
      exact absurd (hl.symm.trans (hno c hc)) (by decide)
    · rw [heq, List.mem_append, List.mem_singleton] at hc
      rcases hc with hc | rfl
      · exact absurd (hl.symm.trans (hno c hc)) (by decide)
      · cases hl
  | callStopAll =>
    cases hstep
    intro c hc hl
    rcases List.mem_append.1 hc with hc | hc
    · exact hs c hc hl
    · rw [List.mem_singleton.1 hc] at hl
      exact of_decide_eq_true hl
  | stopAll call =>
    simp only [step, stopAllStep] at hstep
    split at hstep
    · cases hstep
    · rename_i late batch hc
      cases hstep
      intro c' hc' hl
      rcases List.mem_or_eq_of_mem_set hc' with hc' | rfl
      · exact hs c' hc' hl
      · exact hs _ (List.mem_of_getElem? hc) hl
    · rename_i late i rest hc
      cases hstep
      intro c' hc' hl
      rcases List.mem_or_eq_of_mem_set hc' with hc' | rfl
      · exact hs c' hc' hl
      · exact hs _ (List.mem_of_getElem? hc) hl
    · cases hstep

/-- **Start and stop.**  In every run of one `StartAll` and any number of `StopAll`, with any results of the components,
no started component is stopped twice, lost, or stopped out of order, and no other component is stopped. -/
theorem lifecycle_safe (h : Reachable (step n) initial s) : LifecycleSafe n s := by
  have hinv := inv_of_reachable h
  have hnodup := hinv.conserved.nodup_iff.2 hinv.nodup
  have hstops : (s.stops.map Prod.snd).Nodup := (List.nodup_append.1 hnodup).2.1
  have hmem : ∀ i ∈ s.stops.map Prod.snd, i ∈ s.succeeded := fun i hi =>
    hinv.conserved.mem_iff.1 (List.mem_append_right _ hi)
  refine ⟨fun i => List.nodup_iff_count_le_one.1 hstops i, hmem, fun hend i hi => ?_, hinv.started_le, ?_⟩
  · -- something has shut down, and `StartAll` has returned
    have hdone : s.shuttingDown = true ∧ held s.startAll = [] := by
      rcases hend with ⟨err, herr⟩ | ⟨c, hc, hlate, hfin⟩
      · exact ⟨hinv.isDown (by rw [herr]; rfl), by rw [herr]; rfl⟩
      · obtain ⟨call, hcall⟩ := List.mem_iff_getElem?.1 hc
        rw [StopCall.finished, Bool.and_eq_true] at hfin
        refine ⟨(hinv.calls call c hcall).entered hfin.1, ?_⟩
        rw [late_of_reachable h c hc hlate]
        rfl
    have hplaces := hinv.conserved.mem_iff.2 hi
    rw [hinv.down hdone.1, hdone.2] at hplaces
    simp only [List.range_zero, List.nil_append, List.mem_append, List.mem_flatMap] at hplaces
    rcases hplaces with hbatch | hstopped
    · exact .inr hbatch
    · exact .inl (List.count_eq_one_of_mem hstops hstopped)
  · exact fun call c hc => (hinv.calls call c hc).order

/-- A `StopAll` arrives while the second of three components starts. -/
def interrupted : List Action :=
  [.startAll true, .startAll true, .startAll true, .startAll true, .startAll true, .callStopAll, .stopAll 0,
    .startAll true, .startAll true, .startAll true, .stopAll 0, .startAll true, .stopAll 1, .startAll true]

theorem lifecycle_safe_interrupted : ∃ s, run (step 3) initial interrupted = some s ∧
    s.startAll = .returned (some .aborted) ∧ s.succeeded = [0, 1] ∧ LifecycleSafe 3 s := by
  obtain ⟨s, hrun, hs⟩ := exists_run (step 3) initial interrupted
    (p := fun s => decide (s.startAll = .returned (some .aborted) ∧ s.succeeded = [0, 1])) (by decide)
  obtain ⟨hret, hsucc⟩ := of_decide_eq_true hs
  exact ⟨s, hrun, hret, hsucc, lifecycle_safe ⟨_, hrun⟩⟩

end Noda.Lifecycle
