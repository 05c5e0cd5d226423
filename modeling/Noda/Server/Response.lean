import Noda.Lib.Transition

/-!
# Waiting for the response of a workflow

`awaitWorkflowResponse` and the goroutine of `buildRouteHandler` that it waits for.  The two channels have room for one
element each; a push into `responseCh` when it is full is dropped.  Every channel operation, the expiry of the timer and
every choice of `select` is one step.  `produced` is a ghost: all responses that the interceptor was called with.

After the timer the handler looks at `responseCh` first and then at `workflowDone`.  A workflow that produces its
response and completes between the two looks is answered as if it had produced none (`response_lost`).  In every run in
which a workflow with a response does not complete there, a produced response wins (`response_wins`).
-/

namespace Noda.Server

open Transition

/-- What the handler writes. -/
inductive Answer (R E : Type) where
  | response (resp : R)
  | accepted
  | missingResponse
  | mappedError (err : E)
  | timeout
  deriving DecidableEq, Repr

/-- Where the handler is: at its `select`, or in one of the three arms before each of their further looks at a channel,
or at its end. -/
inductive Handler (R E : Type) where
  | selecting
  | received (resp : R)
  | completed (wfErr : Option E)
  | expired
  | drained
  | answered (a : Answer R E)
  deriving DecidableEq, Repr

structure State (R E : Type) where
  responseCh : Option R
  workflowDone : Option (Option E)
  timerFired : Bool
  ended : Bool
  produced : List R
  handler : Handler R E

/-- The arms of the `select`. -/
inductive Arm where
  | responseCh
  | workflowDone
  | timer
  deriving DecidableEq, Repr

/-- A push of the interceptor, the end of the workflow, the expiry of the timer, or a step of the handler. -/
inductive Action (R E : Type) where
  | push (resp : R)
  | finish (wfErr : Option E)
  | expire
  | select (arm : Arm)
  | handle

variable {R E : Type}

def initial : State R E := ⟨none, none, false, false, [], .selecting⟩

/-- `writeAccepted`; `declares` says that the route declares response schemas. -/
def writeAccepted (declares : Bool) : Answer R E := if declares then .missingResponse else .accepted

/-- The answer to a workflow that has completed without a response. -/
def writeCompletion (declares : Bool) : Option E → Answer R E
  | some err => .mappedError err
  | none => writeAccepted declares

/-- The `select` of `awaitWorkflowResponse`, with the choice of a ready arm. -/
def selectArm (s : State R E) : Arm → Option (State R E)
  | .responseCh => s.responseCh.map fun resp => { s with responseCh := none, handler := .received resp }
  | .workflowDone => s.workflowDone.map fun wfErr => { s with workflowDone := none, handler := .completed wfErr }
  | .timer => if s.timerFired then some { s with handler := .expired } else none

/-- The arms of the `select`, up to their next look at a channel. -/
def handle (declares : Bool) (s : State R E) : Option (State R E) :=
  match s.handler with
  | .received resp => some { s with workflowDone := none, handler := .answered (.response resp) }
  | .completed wfErr =>
    match s.responseCh with
    | some resp => some { s with responseCh := none, handler := .answered (.response resp) }
    | none => some { s with handler := .answered (writeCompletion declares wfErr) }
  | .expired =>
    match s.responseCh with
    | some resp => some { s with responseCh := none, handler := .answered (.response resp) }
    | none => some { s with handler := .drained }
  | .drained =>
    match s.workflowDone with
    | some wfErr => some { s with workflowDone := none, handler := .answered (writeCompletion declares wfErr) }
    | none => some { s with handler := .answered .timeout }
  | .selecting => none
  | .answered _ => none

def step (declares : Bool) (s : State R E) : Action R E → Option (State R E)
  | .push resp =>
    if s.ended then none
    else some { s with responseCh := s.responseCh.or (some resp), produced := s.produced ++ [resp] }
  | .finish wfErr => if s.ended then none else some { s with ended := true, workflowDone := some wfErr }
  | .expire => if s.timerFired then none else some { s with timerFired := true }
  | .select arm =>
    match s.handler with
    | .selecting => selectArm s arm
    | _ => none
  | .handle => handle declares s

/-! ### A produced response wins -/

/-- The answer is made from the completion of the workflow. -/
def Answer.ofCompletion : Answer R E → Bool
  | .accepted | .missingResponse | .mappedError _ => true
  | .response _ | .timeout => false

/-- What is expected of the answer. -/
structure ResponseWins (s : State R E) : Prop where
  /-- an answer from the completion of the workflow: it has produced no response -/
  completion : ∀ a, s.handler = .answered a → a.ofCompletion = true → s.ended = true ∧ s.produced = []
  /-- a response that is written is the first one produced -/
  first : ∀ resp, s.handler = .answered (.response resp) → s.produced.head? = some resp

/-- A workflow that has produced a response does not complete between the two looks of the handler after the timer. -/
def notBetween (s : State R E) : Action R E → Bool
  | .finish _ =>
    match s.handler with
    | .drained => s.produced.isEmpty
    | _ => true
  | _ => true

/-- What is known of the responses, by where the handler is. -/
def HandlerOk (s : State R E) : Handler R E → Prop
  | .selecting => s.responseCh = s.produced.head?
  | .expired => s.responseCh = s.produced.head?
  | .received resp => s.produced.head? = some resp
  | .completed _ => s.responseCh = s.produced.head? ∧ s.ended = true
  | .drained => s.ended = true → s.produced = []
  | .answered (.response resp) => s.produced.head? = some resp
  | .answered .timeout => True
  | .answered _ => s.ended = true ∧ s.produced = []

/-- The invariant. -/
structure Inv (s : State R E) : Prop where
  done : s.workflowDone.isSome = true → s.ended = true
  handler : HandlerOk s s.handler

theorem Inv.wins {s : State R E} (h : Inv s) : ResponseWins s := by
  have hok := h.handler
  refine ⟨fun a ha hcompl => ?_, fun resp hresp => ?_⟩
  · rw [ha] at hok
    cases a with
    | response resp => cases hcompl
    | accepted => exact hok
    | missingResponse => exact hok
    | mappedError err => exact hok
    | timeout => cases hcompl
  · rw [hresp] at hok
    exact hok

private theorem handlerOk_completion {s : State R E} (declares : Bool) (wfErr : Option E) (hended : s.ended = true)
    (hnone : s.produced = []) : HandlerOk s (.answered (writeCompletion declares wfErr)) := by
  cases wfErr with
  | some err => exact ⟨hended, hnone⟩
  | none =>
    cases declares with
    | true => exact ⟨hended, hnone⟩
    | false => exact ⟨hended, hnone⟩

private theorem inv_push {s : State R E} (h : Inv s) (hrun : s.ended = false) (resp : R) :
    Inv { s with responseCh := s.responseCh.or (some resp), produced := s.produced ++ [resp] } := by
  refine ⟨h.done, ?_⟩
  have hok := h.handler
  have hhead : s.responseCh = s.produced.head? → s.responseCh.or (some resp) = (s.produced ++ [resp]).head? := by
    intro heq
    rw [heq, List.head?_append]
    rfl
  have hkeep : ∀ r, s.produced.head? = some r → (s.produced ++ [resp]).head? = some r := by
    intro r hr
    rw [List.head?_append, hr]
    rfl
  cases hh : s.handler with
  | selecting => rw [hh] at hok; exact hhead hok
  | expired => rw [hh] at hok; exact hhead hok
  | received r => rw [hh] at hok; exact hkeep r hok
  | completed wfErr => rw [hh] at hok; exact absurd (hrun.symm.trans hok.2) (by decide)
  | drained => exact fun hended => absurd (hrun.symm.trans hended) (by decide)
  | answered a =>
    rw [hh] at hok
    cases a with
    | response r => exact hkeep r hok
    | timeout => trivial
    | accepted => exact absurd (hrun.symm.trans hok.1) (by decide)
    | missingResponse => exact absurd (hrun.symm.trans hok.1) (by decide)
    | mappedError err => exact absurd (hrun.symm.trans hok.1) (by decide)

private theorem inv_finish {s : State R E} (h : Inv s) (wfErr : Option E)
    (hnot : s.handler = .drained → s.produced = []) : Inv { s with ended := true, workflowDone := some wfErr } := by
  refine ⟨fun _ => rfl, ?_⟩
  have hok := h.handler
  cases hh : s.handler with
  | selecting => rw [hh] at hok; exact hok
  | expired => rw [hh] at hok; exact hok
  | received r => rw [hh] at hok; exact hok
  | completed wfErr => rw [hh] at hok; exact ⟨hok.1, rfl⟩
  | drained => exact fun _ => hnot hh
  | answered a =>
    rw [hh] at hok
    cases a with
    | response r => exact hok
    | timeout => trivial
    | accepted => exact ⟨rfl, hok.2⟩
    | missingResponse => exact ⟨rfl, hok.2⟩
    | mappedError err => exact ⟨rfl, hok.2⟩

private theorem inv_select {s s' : State R E} (h : Inv s) (hh : s.handler = .selecting) {arm : Arm}
    (hstep : selectArm s arm = some s') : Inv s' := by
  have hok := h.handler
  rw [hh] at hok
  cases arm with
  | responseCh =>
    obtain ⟨resp, hresp, rfl⟩ := Option.map_eq_some_iff.1 hstep
    exact ⟨h.done, hok.symm.trans hresp⟩
  | workflowDone =>
    obtain ⟨wfErr, hdone, rfl⟩ := Option.map_eq_some_iff.1 hstep
    exact ⟨(fun hsome => nomatch hsome), hok, h.done (by rw [hdone]; rfl)⟩
  | timer =>
    simp only [selectArm] at hstep
    split_ifs at hstep
    cases hstep
    exact ⟨h.done, hok⟩

private theorem inv_handle {s s' : State R E} (h : Inv s) {declares : Bool} (hstep : handle declares s = some s') :
    Inv s' := by
  have hok := h.handler
  unfold handle at hstep
  cases hh : s.handler with
  | selecting => rw [hh] at hstep; cases hstep
  | answered a => rw [hh] at hstep; cases hstep
  | received resp =>
    rw [hh] at hstep hok
    cases hstep
    exact ⟨(fun hsome => nomatch hsome), hok⟩
  | completed wfErr =>
    rw [hh] at hstep hok
    cases hr : s.responseCh with
    | some resp =>
      rw [hr] at hstep
      cases hstep
      exact ⟨h.done, hok.1.symm.trans hr⟩
    | none =>
      rw [hr] at hstep
      cases hstep
      have hnone : s.produced = [] := List.head?_eq_none_iff.1 (hok.1.symm.trans hr)
      exact ⟨h.done, handlerOk_completion declares wfErr hok.2 hnone⟩
  | expired =>
    rw [hh] at hstep hok
    cases hr : s.responseCh with
    | some resp =>
      rw [hr] at hstep
      cases hstep
      exact ⟨h.done, hok.symm.trans hr⟩
    | none =>
      rw [hr] at hstep
      cases hstep
      exact ⟨h.done, fun _ => List.head?_eq_none_iff.1 (hok.symm.trans hr)⟩
  | drained =>
    rw [hh] at hstep hok
    cases hd : s.workflowDone with
    | some wfErr =>
      rw [hd] at hstep
      cases hstep
      have hended := h.done (by rw [hd]; rfl)
      exact ⟨(fun hsome => nomatch hsome), handlerOk_completion declares wfErr hended (hok hended)⟩
    | none =>
      rw [hd] at hstep
      cases hstep
      exact ⟨(fun hsome => nomatch hsome), trivial⟩

theorem inv_step {s s' : State R E} {declares : Bool} {a : Action R E} (h : Inv s) (hnot : notBetween s a = true)
    (hstep : step declares s a = some s') : Inv s' := by
  cases a with
  | push resp =>
    simp only [step] at hstep
    split_ifs at hstep with hrun
    cases hstep
    exact inv_push h (by simpa using hrun) resp
  | finish wfErr =>
    simp only [step] at hstep
    split_ifs at hstep
    cases hstep
    refine inv_finish h wfErr fun hh => ?_
    simpa [notBetween, hh] using hnot
  | expire =>
    simp only [step] at hstep
    split_ifs at hstep
    cases hstep
    exact ⟨h.done, h.handler⟩
  | select arm =>
    simp only [step] at hstep
    split at hstep
    · rename_i hh
      exact inv_select h hh hstep
    · cases hstep
  | handle => exact inv_handle h hstep

/-- In every run in which a workflow with a response does not complete between the two looks of the handler after the
timer, an answer from the completion means that there is no response, and a response that is written is the first. -/
theorem response_wins {declares : Bool} {as : List (Action R E)} {s : State R E}
    (hrun : run (step declares) initial as = some s)
    (hnot : Meets (step declares) (fun s a => notBetween s a = true) initial as) : ResponseWins s := by
  have h₀ : Inv (initial : State R E) := ⟨fun hsome => (nomatch hsome), rfl⟩
  exact (run_invariant_of_meets (fun _ _ _ hs hc hstep => inv_step hs hc hstep) h₀ hnot hrun).wins

/-- The workflow produces its response and completes when the timer has fired, before the handler has looked. -/
def lateRun : List (Action String String) :=
  [.expire, .select .timer, .push "200", .push "201", .finish (some "late failure"), .handle]

theorem response_wins_late : ∃ s, run (step true) initial lateRun = some s ∧ s.handler = .answered (.response "200") ∧
    ResponseWins s := by
  obtain ⟨s, hrun, hs⟩ := exists_run (step true) initial lateRun
    (p := fun s => decide (s.handler = .answered (.response "200"))) (by decide)
  exact ⟨s, hrun, of_decide_eq_true hs, response_wins hrun (by decide)⟩

/-- The workflow produces its response and completes between the two looks. -/
def betweenRun : List (Action String String) :=
  [.expire, .select .timer, .handle, .push "200", .finish none, .handle]

/-- The handler answers 202 to a workflow that has produced a response. -/
theorem response_lost : ∃ s, run (step false) initial betweenRun = some s ∧ ¬ResponseWins s := by
  obtain ⟨s, hrun, hs⟩ := exists_run (step false) initial betweenRun
    (p := fun s => decide (s.handler = .answered .accepted ∧ s.produced ≠ [])) (by decide)
  obtain ⟨hh, hne⟩ := of_decide_eq_true hs
  exact ⟨s, hrun, fun h => hne (h.completion _ hh rfl).2⟩

end Noda.Server
