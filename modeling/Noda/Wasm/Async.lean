import Noda.Lib.GoMap
import Noda.Lib.Pool
import Noda.Lib.Strconv
import Noda.Lib.Transition

/-!
# Async calls of a Wasm module

`CallAsync`, the goroutines it starts, `executeTick` as far as it takes the responses, the end of the tick loop, and
`Stop`.  Any number of calls run side by side.  Each access to a flag, each block under a lock and each operation is one
step; the outcome of an operation and of the encoding of a tick input are free.

`RegisterAsyncLabel` looks only at the labels that are pending.  A label is pending until its response is stored, not
until the response is delivered: a call that reuses the label of a response that waits for a tick may overwrite it
(`async_not_delivered`).  When the tick loop ends, the responses that still wait are lost, and so are those that come
later.  In every run in which no label is reused so, every tick input with responses is encoded and the tick loop ends
after the last tick that is needed, each response is delivered exactly once (`async_delivered`).
-/

namespace Noda.Wasm.Async

open Transition

/-- The fields of a `HostCallRequest` that `CallAsync` reads. -/
structure HostCallRequest where
  service : String
  operation : String
  label : String
  deriving DecidableEq, Repr

/-- `AsyncResponse`, with status `ok` or `error`. -/
inductive AsyncResponse (D : Type) where
  | ok (data : D)
  | error (code message operation : String)
  deriving DecidableEq, Repr

/-- What the module may use. -/
structure ModuleConfig where
  services : List String
  connections : List String
  deriving DecidableEq, Repr

/-- `IsServiceAllowed`. -/
def isServiceAllowed (config : ModuleConfig) (service : String) : Bool :=
  service == "" || service ∈ config.services || service ∈ config.connections

/-- Where a call is; `checked` says that `AddAsyncResult` has found that the module is not stopping. -/
inductive Phase (D : Type) where
  | start
  | registered
  | running
  | adding (response : AsyncResponse D) (checked : Bool)
  | finished
  | skipped
  | rejected
  deriving DecidableEq, Repr

/-- A call of `CallAsync` with its goroutine.  The last two fields are ghosts: what the call has produced, and whether
`CallAsync` has returned nil before `Stop` began. -/
structure Call (D : Type) where
  request : HostCallRequest
  phase : Phase D
  response : Option (AsyncResponse D)
  accepted : Bool
  deriving DecidableEq, Repr

/-- Responses by label, each with the number of the call that has stored it (a ghost). -/
abbrev Responses (D : Type) := GoMap (Nat × AsyncResponse D)

/-- `tick` is the input of the tick in progress, before it is encoded; `inputs` are the inputs that were handed to the
module; `failed` says that a call of the guest was interrupted. -/
structure State (D : Type) where
  stopping : Bool
  failed : Bool
  tickDone : Bool
  cleared : Bool
  pendingLabels : GoMap Bool
  asyncResults : Responses D
  tick : Option (Responses D)
  inputs : List (Responses D)
  calls : List (Call D)

/-- `result` is what the operation of the call yields, if the step is its end. -/
inductive Action (D : Type) where
  | callAsync (request : HostCallRequest)
  | call (k : Nat) (result : Except String D)
  | tick
  | marshal (ok : Bool)
  | markFailed
  | tickLoopExit
  | stop
  | clear

variable {D : Type}

def initial : State D := ⟨false, false, false, false, ∅, ∅, none, [], []⟩

def denied (service : String) : AsyncResponse D :=
  .error "PERMISSION_DENIED" ("service " ++ service.goQuote ++ " not allowed") ""

/-- The response for what the operation has yielded. -/
def respond (request : HostCallRequest) : Except String D → AsyncResponse D
  | .ok data => .ok data
  | .error message => .error "INTERNAL_ERROR" message (request.service ++ "." ++ request.operation)

def State.goto (s : State D) (k : Nat) (call : Call D) (phase : Phase D) : State D :=
  { s with calls := s.calls.set k { call with phase := phase } }

def State.produce (s : State D) (k : Nat) (call : Call D) (response : AsyncResponse D) : State D :=
  { s with calls := s.calls.set k { call with phase := .adding response false, response := some response } }

/-- The end of `AddAsyncResult`; a call that is not permitted returns after it. -/
def State.store (s : State D) (k : Nat) (call : Call D) (response : AsyncResponse D) : State D :=
  { s.goto k { call with accepted := call.accepted || !s.stopping } .finished with
    asyncResults := s.asyncResults.insert call.request.label (k, response)
    pendingLabels := s.pendingLabels.erase call.request.label }

def callStep (config : ModuleConfig) (s : State D) (k : Nat) (call : Call D) (result : Except String D) :
    Option (State D) :=
  match call.phase with
  | .start =>
    -- `RegisterAsyncLabel`
    if call.request.label = "" then some (s.goto k call .rejected)
    else if s.pendingLabels.getD call.request.label false then some (s.goto k call .rejected)
    else some { s.goto k call .registered with pendingLabels := s.pendingLabels.insert call.request.label true }
  | .registered =>
    if isServiceAllowed config call.request.service = false then some (s.produce k call (denied call.request.service))
    -- `tryAddOutstanding`
    else if s.stopping then some (s.goto k call .skipped)
    else some (s.goto k { call with accepted := true } .running)
  | .running => some (s.produce k call (respond call.request result))
  | .adding response false => some (s.goto k call (if s.stopping then .finished else .adding response true))
  | .adding response true => some (s.store k call response)
  | .finished | .skipped | .rejected => none

def step (config : ModuleConfig) (s : State D) : Action D → Option (State D)
  | .callAsync request => some { s with calls := s.calls ++ [⟨request, .start, none, false⟩] }
  | .call k result => (s.calls[k]?).bind fun call => callStep config s k call result
  | .tick => if s.tick = none ∧ ¬s.failed ∧ ¬s.tickDone then
      some { s with tick := some s.asyncResults, asyncResults := ∅ } else none
  | .marshal ok =>
    s.tick.map fun responses => { s with tick := none, inputs := if ok then s.inputs ++ [responses] else s.inputs }
  | .markFailed => if s.tick = none ∧ ¬s.tickDone then some { s with failed := true } else none
  | .tickLoopExit => if (s.stopping ∨ s.failed) ∧ s.tick = none then some { s with tickDone := true } else none
  | .stop => some { s with stopping := true }
  | .clear =>
    if s.stopping ∧ s.tickDone then some { s with cleared := true, pendingLabels := ∅, asyncResults := ∅ } else none

/-! ### Delivery -/

/-- The calls whose responses are in the map. -/
def tags (responses : Responses D) : List Nat := responses.entries.map (·.2.1)

/-- The responses that wait for a tick, or are in the input of the tick in progress. -/
def State.waiting (s : State D) : List Nat := tags s.asyncResults ++ s.tick.elim [] tags

/-- The responses that were handed to the module. -/
def State.delivered (s : State D) : List Nat := s.inputs.flatMap tags

/-- What is expected of the responses. -/
structure Delivered (s : State D) : Prop where
  /-- The response of every accepted call whose operation has finished is being added, waits for a tick or was in the
  input of one tick. -/
  once : ∀ (k : Nat) call, s.calls[k]? = some call → call.accepted = true → call.response ≠ none →
    (∃ response checked, call.phase = .adding response checked) ∨ s.waiting.count k + s.delivered.count k = 1
  /-- When there are no more ticks, it was in the input of one. -/
  ended : ∀ (k : Nat) call, s.calls[k]? = some call → call.accepted = true → call.response ≠ none →
    s.tickDone = true → s.delivered.count k = 1
  /-- No response is in the input of two ticks. -/
  atMostOnce : ∀ k, s.waiting.count k + s.delivered.count k ≤ 1
  /-- A response that was delivered under a label is the one of a call with that label. -/
  own : ∀ input ∈ s.inputs, ∀ label k response, input.lookup label = some (k, response) →
    ∃ call, s.calls[k]? = some call ∧ call.request.label = label ∧ call.response = some response

/-- The accepted calls have finished, and none of their responses waits for a tick. -/
def State.Settled (s : State D) : Prop :=
  (∀ call ∈ s.calls, call.accepted = true → call.phase = .finished) ∧
    ∀ k ∈ tags s.asyncResults, ∀ call ∈ s.calls[k]?, call.accepted = false

instance [DecidableEq D] (s : State D) : Decidable s.Settled := inferInstanceAs (Decidable (_ ∧ _))

/-- A label that is registered is not the one of a response that waits for a tick.  The response of an accepted call is
added before `Stop`, and no call is accepted after the tick loop has ended. -/
def Call.Careful (s : State D) (call : Call D) : Phase D → Prop
  | .start => call.request.label ∉ s.asyncResults
  | .registered => s.stopping = false → s.tickDone = false
  | .adding _ false => call.accepted = true → s.stopping = false
  | .adding _ true => (call.accepted || !s.stopping) = true → s.tickDone = false
  | _ => True

/-- The calls are careful, a tick input with responses is encoded, and when the tick loop ends all accepted calls have
finished and none of their responses waits. -/
def careful (s : State D) : Action D → Prop
  | .call k _ => ∀ call ∈ s.calls[k]?, call.Careful s call.phase
  | .marshal ok => ok = true ∨ ∀ responses ∈ s.tick, responses.entries = []
  | .tickLoopExit => s.Settled
  | _ => True

instance Call.decidableCareful (s : State D) (call : Call D) : ∀ phase, Decidable (call.Careful s phase)
  | .start => inferInstanceAs (Decidable (call.request.label ∉ s.asyncResults))
  | .registered => inferInstanceAs (Decidable (s.stopping = false → s.tickDone = false))
  | .adding _ false => inferInstanceAs (Decidable (call.accepted = true → s.stopping = false))
  | .adding _ true => inferInstanceAs (Decidable ((call.accepted || !s.stopping) = true → s.tickDone = false))
  | .running | .finished | .skipped | .rejected => .isTrue trivial

instance decidableCareful [DecidableEq D] : ∀ (s : State D) (a : Action D), Decidable (careful s a)
  | s, .call k _ => inferInstanceAs (Decidable (∀ call ∈ s.calls[k]?, call.Careful s call.phase))
  | s, .marshal ok => inferInstanceAs (Decidable (ok = true ∨ ∀ responses ∈ s.tick, responses.entries = []))
  | s, .tickLoopExit => inferInstanceAs (Decidable s.Settled)
  | _, .callAsync _ | _, .tick | _, .markFailed | _, .stop | _, .clear => .isTrue trivial

/-- The call may still store a response. -/
def Call.active (stopping : Bool) (call : Call D) : Bool :=
  match call.phase with
  | .registered | .running | .adding _ false => !stopping
  | .adding _ true => true
  | _ => false

/-- All responses that are somewhere. -/
def State.present (s : State D) : List Nat := s.waiting ++ s.delivered

/-- The responses are those of calls that have finished. -/
def Own (calls : List (Call D)) (responses : Responses D) : Prop :=
  ∀ label k response, responses.lookup label = some (k, response) → ∃ call, calls[k]? = some call ∧
    call.phase = .finished ∧ call.request.label = label ∧ call.response = some response

/-- A call has produced the response that it adds, and none before. -/
def Call.Sound (call : Call D) : Prop :=
  match call.phase with
  | .adding response _ => call.response = some response
  | .finished => True
  | _ => call.response = none

/-- The invariant of the responses. -/
structure ResponsesOk (s : State D) : Prop where
  nodup : s.present.Nodup
  finished : ∀ (k : Nat) call, s.calls[k]? = some call → call.phase = .finished → call.accepted = true → k ∈ s.present
  ended : s.tickDone = true → s.tick = none ∧ s.Settled
  asyncResults : Own s.calls s.asyncResults
  tick : ∀ responses ∈ s.tick, Own s.calls responses
  inputs : ∀ input ∈ s.inputs, Own s.calls input
  sound : ∀ (k : Nat) call, s.calls[k]? = some call → call.Sound

/-- The invariant of the labels: a call that may still store a response has a label of its own, which is pending and
under which no response waits. -/
structure LabelsOk (s : State D) : Prop where
  distinct : ∀ (j k : Nat) call call', s.calls[j]? = some call → s.calls[k]? = some call' →
    call.active s.stopping = true → call'.active s.stopping = true → call.request.label = call'.request.label → j = k
  free : ∀ (k : Nat) call, s.calls[k]? = some call → call.active s.stopping = true → call.request.label ∉ s.asyncResults
  pending : ∀ (k : Nat) call, s.calls[k]? = some call → call.active s.stopping = true → s.cleared = false →
    s.pendingLabels.getD call.request.label false = true
  cleared : s.cleared = true → s.stopping = true

variable {config : ModuleConfig} {s s' : State D} {k : Nat} {call call' : Call D} {responses : Responses D}

private theorem mem_tags {k : Nat} : k ∈ tags responses ↔ ∃ label response, responses.lookup label =
    some (k, response) := by
  constructor
  · intro h
    obtain ⟨⟨label, k, response⟩, he, rfl⟩ := List.mem_map.1 h
    exact ⟨label, response, AList.mem_lookup_iff.2 he⟩
  · rintro ⟨label, response, h⟩
    exact List.mem_map.2 ⟨⟨label, k, response⟩, AList.mem_lookup_iff.1 h, rfl⟩

theorem ResponsesOk.of_present (h : ResponsesOk s) (hk : k ∈ s.present) :
    ∃ call, s.calls[k]? = some call ∧ call.phase = .finished := by
  have hown : ∃ responses, Own s.calls responses ∧ k ∈ tags responses := by
    rcases List.mem_append.1 hk with hk | hk
    · rcases List.mem_append.1 hk with hk | hk
      · exact ⟨_, h.asyncResults, hk⟩
      · cases htick : s.tick with
        | none => simp [htick] at hk
        | some responses => exact ⟨responses, h.tick responses htick, by simpa [htick] using hk⟩
    · obtain ⟨input, hinput, hk⟩ := List.mem_flatMap.1 hk
      exact ⟨input, h.inputs input hinput, hk⟩
  obtain ⟨responses, hown, hmem⟩ := hown
  obtain ⟨label, response, hlookup⟩ := mem_tags.1 hmem
  obtain ⟨call, hcall, hphase, -⟩ := hown label k response hlookup
  exact ⟨call, hcall, hphase⟩

theorem Call.Sound.of_response (h : call.Sound) (hresponse : call.response ≠ none) :
    (∃ response checked, call.phase = .adding response checked) ∨ call.phase = .finished := by
  obtain ⟨request, phase, response, accepted⟩ := call
  cases phase with
  | adding response checked => exact .inl ⟨response, checked, rfl⟩
  | finished => exact .inr rfl
  | _ => exact absurd h hresponse

private theorem mem_present_of_tags (hk : k ∈ tags s.asyncResults) : k ∈ s.present :=
  List.mem_append_left _ (List.mem_append_left _ hk)

theorem ResponsesOk.mem_delivered (h : ResponsesOk s) (hcall : s.calls[k]? = some call)
    (haccepted : call.accepted = true) (hdone : s.tickDone = true) : k ∈ s.delivered := by
  obtain ⟨htick, hfinished, hlost⟩ := h.ended hdone
  have hphase := hfinished call (List.mem_of_getElem? hcall) haccepted
  refine (List.mem_append.1 (h.finished k call hcall hphase haccepted)).resolve_left fun hk => ?_
  rw [State.waiting, htick, Option.elim, List.append_nil] at hk
  exact Bool.false_ne_true ((hlost k hk call hcall).symm.trans haccepted)

theorem ResponsesOk.delivered (h : ResponsesOk s) : Delivered s where
  once k call hcall haccepted hresponse := by
    rcases (h.sound k call hcall).of_response hresponse with hadding | hphase
    · exact .inl hadding
    · right
      rw [← List.count_append]
      exact List.count_eq_one_of_mem h.nodup (h.finished k call hcall hphase haccepted)
  ended k call hcall haccepted _ hdone :=
    List.count_eq_one_of_mem (List.nodup_append.1 h.nodup).2.1 (h.mem_delivered hcall haccepted hdone)
  atMostOnce k := by
    rw [← List.count_append]
    exact List.nodup_iff_count_le_one.1 h.nodup k
  own input hinput label k response hlookup := by
    obtain ⟨call, hcall, -, hlabel, hresponse⟩ := h.inputs input hinput label k response hlookup
    exact ⟨call, hcall, hlabel, hresponse⟩

/-! ### A step of a call -/

theorem Own.set (h : Own s.calls responses) (hk : s.calls[k]? = some call) (hphase : call.phase ≠ .finished) :
    Own (s.calls.set k call') responses := by
  intro label j response hlookup
  obtain ⟨c, hc, hfinished, hrest⟩ := h label j response hlookup
  have hne : k ≠ j := by
    rintro rfl
    exact hphase (Option.some.inj (hk.symm.trans hc) ▸ hfinished)
  exact ⟨c, by rw [List.getElem?_set_ne hne, hc], hfinished, hrest⟩

theorem ResponsesOk.getElem?_of_set {j : Nat} {c : Call D} (h : ResponsesOk s) (hk : s.calls[k]? = some call)
    (hphase : call.phase ≠ .finished) (hj : j ∈ tags s.asyncResults) (hc : (s.calls.set k call')[j]? = some c) :
    s.calls[j]? = some c := by
  rcases Pool.getElem?_set_some hc with ⟨rfl, -⟩ | ⟨-, hc⟩
  · obtain ⟨c₀, hc₀, hfinished⟩ := h.of_present (mem_present_of_tags hj)
    exact absurd (Option.some.inj (hk.symm.trans hc₀) ▸ hfinished) hphase
  · exact hc

private theorem responsesOk_set (h : ResponsesOk s) (hk : s.calls[k]? = some call) (hphase : call.phase ≠ .finished)
    (hfinished : call'.phase = .finished → call'.accepted = false) (hsound : call'.Sound)
    (haccepted : s.tickDone = true → call'.accepted = true → call.accepted = true) :
    ResponsesOk { s with calls := s.calls.set k call' } := by
  refine ⟨h.nodup, ?_, ?_, h.asyncResults.set hk hphase, fun r hr => (h.tick r hr).set hk hphase,
    fun r hr => (h.inputs r hr).set hk hphase, ?_⟩
  · intro j c hc hphase' hc'
    rcases Pool.getElem?_set_some hc with ⟨-, rfl⟩ | ⟨-, hc⟩
    · exact absurd ((hfinished hphase').symm.trans hc') Bool.false_ne_true
    · exact h.finished j c hc hphase' hc'
  · intro hdone
    obtain ⟨htick, hall, hlost⟩ := h.ended hdone
    refine ⟨htick, fun c hc hc' => ?_, fun j hj c hc => hlost j hj c (h.getElem?_of_set hk hphase hj hc)⟩
    rcases List.mem_or_eq_of_mem_set hc with hc | rfl
    · exact hall c hc hc'
    · exact absurd (hall call (List.mem_of_getElem? hk) (haccepted hdone hc')) hphase
  · intro j c hc
    rcases Pool.getElem?_set_some hc with ⟨-, rfl⟩ | ⟨-, hc⟩
    · exact hsound
    · exact h.sound j c hc

private theorem labelsOk_set (h : LabelsOk s) (hk : s.calls[k]? = some call) (hrequest : call'.request = call.request)
    (hactive : call'.active s.stopping = true → call.active s.stopping = true) :
    LabelsOk { s with calls := s.calls.set k call' } := by
  have hbefore : ∀ (j : Nat) c, (s.calls.set k call')[j]? = some c → c.active s.stopping = true →
      ∃ c₀, s.calls[j]? = some c₀ ∧ c₀.active s.stopping = true ∧ c.request = c₀.request := by
    intro j c hc hc'
    rcases Pool.getElem?_set_some hc with ⟨rfl, rfl⟩ | ⟨-, hc⟩
    · exact ⟨call, hk, hactive hc', hrequest⟩
    · exact ⟨c, hc, hc', rfl⟩
  refine ⟨?_, ?_, ?_, h.cleared⟩
  · intro i j c d hc hd hc' hd' hlabel
    obtain ⟨c₀, hc₀, hactive₀, hreq⟩ := hbefore i c hc hc'
    obtain ⟨d₀, hd₀, hactive₁, hreq'⟩ := hbefore j d hd hd'
    rw [hreq, hreq'] at hlabel
    exact h.distinct i j c₀ d₀ hc₀ hd₀ hactive₀ hactive₁ hlabel
  · intro j c hc hc'
    obtain ⟨c₀, hc₀, hactive₀, hreq⟩ := hbefore j c hc hc'
    rw [hreq]
    exact h.free j c₀ hc₀ hactive₀
  · intro j c hc hc' hcleared
    obtain ⟨c₀, hc₀, hactive₀, hreq⟩ := hbefore j c hc hc'
    rw [hreq]
    exact h.pending j c₀ hc₀ hactive₀ hcleared

private theorem labelsOk_register (h : LabelsOk s) (hk : s.calls[k]? = some call)
    (hpending : s.pendingLabels.getD call.request.label false = false) (hfree : call.request.label ∉ s.asyncResults) :
    LabelsOk { s.goto k call .registered with pendingLabels := s.pendingLabels.insert call.request.label true } := by
  have hother : ∀ (j : Nat) c, s.calls[j]? = some c → c.active s.stopping = true → s.stopping = false →
      c.request.label ≠ call.request.label := by
    intro j c hc hactive hstopping hlabel
    have hcleared : s.cleared = false := by
      cases hcleared : s.cleared with
      | false => rfl
      | true => rw [h.cleared hcleared] at hstopping; exact nomatch hstopping
    have htrue := h.pending j c hc hactive hcleared
    rw [hlabel, hpending] at htrue
    exact nomatch htrue
  have hstopping : Call.active s.stopping { call with phase := .registered } = true → s.stopping = false := by
    intro hactive
    simpa [Call.active] using hactive
  refine ⟨?_, ?_, ?_, h.cleared⟩
  · intro i j c d hc hd hc' hd' hlabel
    rcases Pool.getElem?_set_some hc with ⟨rfl, rfl⟩ | ⟨-, hc₀⟩
    · rcases Pool.getElem?_set_some hd with ⟨rfl, rfl⟩ | ⟨-, hd₀⟩
      · rfl
      · exact absurd hlabel.symm (hother j d hd₀ hd' (hstopping hc'))
    · rcases Pool.getElem?_set_some hd with ⟨rfl, rfl⟩ | ⟨-, hd₀⟩
      · exact absurd hlabel (hother i c hc₀ hc' (hstopping hd'))
      · exact h.distinct i j c d hc₀ hd₀ hc' hd' hlabel
  · intro j c hc hc'
    rcases Pool.getElem?_set_some hc with ⟨rfl, rfl⟩ | ⟨-, hc⟩
    · exact hfree
    · exact h.free j c hc hc'
  · intro j c hc hc' hcleared
    by_cases hlabel : c.request.label = call.request.label
    · rw [hlabel]
      exact AList.getD_insert_self ..
    · rcases Pool.getElem?_set_some hc with ⟨rfl, rfl⟩ | ⟨-, hc⟩
      · exact absurd rfl hlabel
      · exact (AList.getD_insert_of_ne _ _ _ hlabel).trans (h.pending j c hc hc' hcleared)

private theorem labelsOk_store {response : AsyncResponse D} (h : LabelsOk s) (hk : s.calls[k]? = some call)
    (hphase : call.phase = .adding response true) : LabelsOk (s.store k call response) := by
  have hactive : call.active s.stopping = true := by simp [Call.active, hphase]
  have hother : ∀ (j : Nat) c, (s.store k call response).calls[j]? = some c →
      c.active s.stopping = true → s.calls[j]? = some c ∧ c.request.label ≠ call.request.label := by
    intro j c hc hc'
    rcases Pool.getElem?_set_some hc with ⟨rfl, rfl⟩ | ⟨hne, hc⟩
    · simp [Call.active] at hc'
    · exact ⟨hc, fun hlabel => hne (h.distinct j k c call hc hk hc' hactive hlabel)⟩
  refine ⟨?_, ?_, ?_, h.cleared⟩
  · intro i j c d hc hd hc' hd' hlabel
    exact h.distinct i j c d (hother i c hc hc').1 (hother j d hd hd').1 hc' hd' hlabel
  · intro j c hc hc' hmem
    obtain ⟨hc, hlabel⟩ := hother j c hc hc'
    rcases (AList.mem_insert _).1 hmem with heq | hmem
    · exact hlabel heq
    · exact h.free j c hc hc' hmem
  · intro j c hc hc' hcleared
    obtain ⟨hc, hlabel⟩ := hother j c hc hc'
    have hpending := h.pending j c hc hc' hcleared
    rw [AList.getD] at hpending ⊢
    rwa [State.store, AList.lookup_erase_ne hlabel]

private theorem responsesOk_store {response : AsyncResponse D} (h : ResponsesOk s) (hk : s.calls[k]? = some call)
    (hphase : call.phase = .adding response true) (hfree : call.request.label ∉ s.asyncResults)
    (hcareful : (call.accepted || !s.stopping) = true → s.tickDone = false) :
    ResponsesOk (s.store k call response) := by
  have hnot : call.phase ≠ .finished := by
    rw [hphase]
    exact fun heq => nomatch heq
  have habsent : k ∉ s.present := by
    intro hmem
    obtain ⟨c, hc, hfinished⟩ := h.of_present hmem
    exact hnot (Option.some.inj (hk.symm.trans hc) ▸ hfinished)
  have hpresent : (s.store k call response).present = k :: s.present := by
    simp only [State.present, State.waiting, State.delivered, State.store, State.goto, tags,
      AList.entries_insert_of_notMem hfree, List.map_cons, List.cons_append]
  have hlt := (List.getElem?_eq_some_iff.1 hk).1
  refine ⟨?_, ?_, ?_, ?_, fun r hr => (h.tick r hr).set hk hnot, fun r hr => (h.inputs r hr).set hk hnot, ?_⟩
  · rw [hpresent]
    exact List.nodup_cons.2 ⟨habsent, h.nodup⟩
  · intro j c hc hphase' haccepted
    rw [hpresent]
    rcases Pool.getElem?_set_some hc with ⟨rfl, -⟩ | ⟨-, hc⟩
    · exact List.mem_cons_self
    · exact List.mem_cons_of_mem _ (h.finished j c hc hphase' haccepted)
  · intro hdone
    obtain ⟨htick, hall, hlost⟩ := h.ended hdone
    have hcalled : (call.accepted || !s.stopping) = false := by
      by_contra haccepted
      exact Bool.false_ne_true ((hcareful (by simpa only [Bool.not_eq_false] using haccepted)).symm.trans hdone)
    refine ⟨htick, fun c hc hc' => ?_, fun j hj c hc => ?_⟩
    · rcases List.mem_or_eq_of_mem_set hc with hc | rfl
      · exact hall c hc hc'
      · rfl
    rcases Pool.getElem?_set_some hc with ⟨rfl, rfl⟩ | ⟨hne, hc⟩
    · exact hcalled
    · simp only [State.store, tags, AList.entries_insert_of_notMem hfree, List.map_cons, List.mem_cons] at hj
      exact hlost j (hj.resolve_left hne) c hc
  · intro label j response' hlookup
    by_cases heq : label = call.request.label
    · subst heq
      rw [State.store, AList.lookup_insert] at hlookup
      obtain ⟨rfl, rfl⟩ := Prod.mk.inj (Option.some.inj hlookup)
      exact ⟨_, List.getElem?_set_self hlt, rfl, rfl,
        by simpa [Call.Sound, hphase] using h.sound k call hk⟩
    · rw [State.store, AList.lookup_insert_ne heq] at hlookup
      exact h.asyncResults.set hk hnot label j response' hlookup
  · intro j c hc
    rcases Pool.getElem?_set_some hc with ⟨-, rfl⟩ | ⟨-, hc⟩
    · exact trivial
    · exact h.sound j c hc

structure Inv (s : State D) : Prop where
  responses : ResponsesOk s
  labels : LabelsOk s

/-- A step of a call that touches neither the labels nor the responses. -/
private theorem inv_set (h : Inv s) (hk : s.calls[k]? = some call) (hphase : call.phase ≠ .finished)
    (hfinished : call'.phase = .finished → call'.accepted = false)
    (hsound : call'.Sound) (haccepted : s.tickDone = true → call'.accepted = true → call.accepted = true)
    (hrequest : call'.request = call.request) (hactive : call'.active s.stopping = true →
      call.active s.stopping = true) :
    Inv { s with calls := s.calls.set k call' } :=
  ⟨responsesOk_set h.responses hk hphase hfinished hsound haccepted, labelsOk_set h.labels hk hrequest hactive⟩

private theorem inv_call {result : Except String D} (h : Inv s) (hk : s.calls[k]? = some call)
    (hcareful : call.Careful s call.phase) (hstep : callStep config s k call result = some s') : Inv s' := by
  obtain ⟨request, phase, made, accepted⟩ := call
  have hsound := h.responses.sound k _ hk
  cases phase with
  | start =>
    simp only [callStep] at hstep
    split_ifs at hstep with hempty hpending
    · obtain rfl := Option.some.inj hstep
      exact inv_set h hk (by simp) (by simp) hsound (fun _ => id) rfl (by simp [Call.active])
    · obtain rfl := Option.some.inj hstep
      exact inv_set h hk (by simp) (by simp) hsound (fun _ => id) rfl (by simp [Call.active])
    · obtain rfl := Option.some.inj hstep
      refine ⟨?_, labelsOk_register h.labels hk (Bool.not_eq_true _ ▸ hpending) hcareful⟩
      have hset : ResponsesOk { s with calls := s.calls.set k ⟨request, .registered, made, accepted⟩ } :=
        responsesOk_set h.responses hk (by simp) (by simp) hsound fun _ => id
      exact ⟨hset.nodup, hset.finished, hset.ended, hset.asyncResults, hset.tick, hset.inputs, hset.sound⟩
  | registered =>
    simp only [callStep] at hstep
    split_ifs at hstep with hallowed hstopping
    · obtain rfl := Option.some.inj hstep
      exact inv_set h hk (by simp) (by simp) rfl (fun _ => id) rfl (by simp [Call.active])
    · obtain rfl := Option.some.inj hstep
      exact inv_set h hk (by simp) (by simp) hsound (fun _ => id) rfl (by simp [Call.active])
    · obtain rfl := Option.some.inj hstep
      refine inv_set h hk (by simp) (by simp) hsound (fun hdone => ?_) rfl (by simp [Call.active])
      exact absurd ((hcareful (by simpa using hstopping)).symm.trans hdone) Bool.false_ne_true
  | running =>
    obtain rfl := Option.some.inj hstep
    exact inv_set h hk (by simp) (by simp) rfl (fun _ => id) rfl (by simp [Call.active])
  | adding response checked =>
    cases checked with
    | false =>
      obtain rfl := Option.some.inj hstep
      refine inv_set h hk (by simp) ?_ ?_ (fun _ => id) rfl ?_
      · intro hfinished
        split_ifs at hfinished with hstopping
        by_contra haccepted
        exact Bool.false_ne_true ((hcareful (by simpa using haccepted)).symm.trans hstopping)
      · split_ifs
        · exact trivial
        · exact hsound
      · intro hactive
        split_ifs at hactive with hstopping
        · exact nomatch hactive
        · simpa [Call.active] using hstopping
    | true =>
      obtain rfl := Option.some.inj hstep
      have hfree := h.labels.free k _ hk rfl
      exact ⟨responsesOk_store h.responses hk rfl hfree hcareful, labelsOk_store h.labels hk rfl⟩
  | finished => exact nomatch hstep
  | skipped => exact nomatch hstep
  | rejected => exact nomatch hstep

/-! ### Whole runs -/

theorem Own.append (h : Own s.calls responses) : Own (s.calls ++ [call]) responses := by
  intro label k response hlookup
  obtain ⟨c, hc, hrest⟩ := h label k response hlookup
  exact ⟨c, by rw [List.getElem?_append_left (List.getElem?_eq_some_iff.1 hc).1, hc], hrest⟩

/-- A new call is neither finished nor active. -/
private theorem inv_callAsync (h : Inv s) (request : HostCallRequest) :
    Inv { s with calls := s.calls ++ [⟨request, .start, none, false⟩] } := by
  have hold : ∀ (j : Nat) c, (s.calls ++ [⟨request, .start, none, false⟩])[j]? = some c →
      s.calls[j]? = some c ∨ c.phase = .start := by
    intro j c hc
    rcases Pool.getElem?_concat_some hc with hc | ⟨-, rfl⟩
    · exact .inl hc
    · exact .inr rfl
  have hactive : ∀ (j : Nat) c, (s.calls ++ [⟨request, .start, none, false⟩])[j]? = some c →
      c.active s.stopping = true →
      s.calls[j]? = some c := by
    intro j c hc hc'
    refine (hold j c hc).resolve_right fun hphase => ?_
    simp [Call.active, hphase] at hc'
  obtain ⟨hresponses, hlabels⟩ := h
  constructor
  · refine ⟨hresponses.nodup, ?_, ?_, hresponses.asyncResults.append, fun r hr => (hresponses.tick r hr).append,
      fun r hr => (hresponses.inputs r hr).append, ?_⟩
    · intro j c hc hphase haccepted
      rcases hold j c hc with hc | hstart
      · exact hresponses.finished j c hc hphase haccepted
      · exact nomatch hphase.symm.trans hstart
    · intro hdone
      obtain ⟨htick, hall, hlost⟩ := hresponses.ended hdone
      refine ⟨htick, fun c hc haccepted => ?_, fun j hj c hc => ?_⟩
      · rcases List.mem_append.1 hc with hc | hc
        · exact hall c hc haccepted
        · rw [List.mem_singleton.1 hc] at haccepted
          exact nomatch haccepted
      · rcases Pool.getElem?_concat_some hc with hc | ⟨-, rfl⟩
        · exact hlost j hj c hc
        · rfl
    · intro j c hc
      rcases Pool.getElem?_concat_some hc with hc | ⟨-, rfl⟩
      · exact hresponses.sound j c hc
      · rfl
  · refine ⟨?_, ?_, ?_, hlabels.cleared⟩
    · intro i j c d hc hd hc' hd' hlabel
      exact hlabels.distinct i j c d (hactive i c hc hc') (hactive j d hd hd') hc' hd' hlabel
    · intro j c hc hc'
      exact hlabels.free j c (hactive j c hc hc') hc'
    · intro j c hc hc' hcleared
      exact hlabels.pending j c (hactive j c hc hc') hc' hcleared

/-- A tick takes the responses. -/
private theorem inv_tick (h : Inv s) (htick : s.tick = none) (hdone : ¬s.tickDone) :
    Inv { s with tick := some s.asyncResults, asyncResults := ∅ } := by
  have hpresent : State.present { s with tick := some s.asyncResults, asyncResults := ∅ } = s.present := by
    simp [State.present, State.waiting, State.delivered, tags, htick]
  obtain ⟨hresponses, hlabels⟩ := h
  constructor
  · refine ⟨?_, ?_, fun h => absurd h hdone, ?_, ?_, hresponses.inputs, hresponses.sound⟩
    · rw [hpresent]
      exact hresponses.nodup
    · rw [hpresent]
      exact hresponses.finished
    · intro label k response hlookup
      simp at hlookup
    · intro responses heq
      obtain rfl := Option.some.inj heq
      exact hresponses.asyncResults
  · exact ⟨hlabels.distinct, fun _ _ _ _ => AList.notMem_empty _, hlabels.pending, hlabels.cleared⟩

/-- The input of the tick is encoded, or it holds no responses. -/
private theorem inv_marshal {ok : Bool} (h : Inv s) (htick : s.tick = some responses)
    (hok : ok = true ∨ responses.entries = []) :
    Inv { s with tick := none, inputs := if ok then s.inputs ++ [responses] else s.inputs } := by
  have hperm : (State.present { s with tick := none, inputs := if ok then s.inputs ++ [responses] else s.inputs }).Perm
      s.present := by
    rcases hok with rfl | hempty
    · simp only [State.present, State.waiting, State.delivered, htick, Option.elim, if_true, List.flatMap_append,
        List.flatMap_singleton, List.append_nil, List.append_assoc]
      exact List.perm_append_comm.append_left _
    · have htags : tags responses = [] := by rw [tags, hempty, List.map_nil]
      cases ok with
      | true => simp [State.present, State.waiting, State.delivered, htick, htags]
      | false => simp [State.present, State.waiting, State.delivered, htick, htags]
  obtain ⟨hresponses, hlabels⟩ := h
  refine ⟨⟨hperm.nodup_iff.2 hresponses.nodup, ?_, ?_, hresponses.asyncResults, fun _ heq => (nomatch heq), ?_,
    hresponses.sound⟩, ⟨hlabels.distinct, hlabels.free, hlabels.pending, hlabels.cleared⟩⟩
  · intro k call hcall hphase haccepted
    exact hperm.mem_iff.2 (hresponses.finished k call hcall hphase haccepted)
  · intro hdone
    exact ⟨rfl, (hresponses.ended hdone).2⟩
  · intro input hinput
    split_ifs at hinput
    · rcases List.mem_append.1 hinput with hinput | hinput
      · exact hresponses.inputs input hinput
      · rw [List.mem_singleton.1 hinput]
        exact hresponses.tick responses htick
    · exact hresponses.inputs input hinput

private theorem active_of_stopping {stopping : Bool} (h : call.active true = true) : call.active stopping = true := by
  unfold Call.active at h ⊢
  split at h <;> simp_all

theorem inv_step {a : Action D} (h : Inv s) (hcareful : careful s a) (hstep : step config s a = some s') : Inv s' := by
  cases a with
  | callAsync request =>
    obtain rfl := Option.some.inj hstep
    exact inv_callAsync h request
  | call k result =>
    obtain ⟨call, hcall, hstep⟩ := Option.bind_eq_some_iff.1 hstep
    exact inv_call h hcall (hcareful call hcall) hstep
  | tick =>
    simp only [step, Option.ite_none_right_eq_some, Option.some.injEq] at hstep
    obtain ⟨⟨htick, -, hdone⟩, rfl⟩ := hstep
    exact inv_tick h htick hdone
  | marshal ok =>
    obtain ⟨responses, htick, rfl⟩ := Option.map_eq_some_iff.1 hstep
    exact inv_marshal h htick (hcareful.imp_right fun hempty => hempty responses htick)
  | markFailed =>
    simp only [step, Option.ite_none_right_eq_some, Option.some.injEq] at hstep
    obtain ⟨-, rfl⟩ := hstep
    obtain ⟨hresponses, hlabels⟩ := h
    exact ⟨⟨hresponses.nodup, hresponses.finished, hresponses.ended, hresponses.asyncResults, hresponses.tick,
      hresponses.inputs, hresponses.sound⟩, ⟨hlabels.distinct, hlabels.free, hlabels.pending, hlabels.cleared⟩⟩
  | tickLoopExit =>
    simp only [step, Option.ite_none_right_eq_some, Option.some.injEq] at hstep
    obtain ⟨⟨-, htick⟩, rfl⟩ := hstep
    obtain ⟨hresponses, hlabels⟩ := h
    exact ⟨⟨hresponses.nodup, hresponses.finished, fun _ => ⟨htick, hcareful⟩, hresponses.asyncResults,
      hresponses.tick, hresponses.inputs, hresponses.sound⟩,
      ⟨hlabels.distinct, hlabels.free, hlabels.pending, hlabels.cleared⟩⟩
  | stop =>
    obtain rfl := Option.some.inj hstep
    obtain ⟨hresponses, hlabels⟩ := h
    refine ⟨⟨hresponses.nodup, hresponses.finished, hresponses.ended, hresponses.asyncResults, hresponses.tick,
      hresponses.inputs, hresponses.sound⟩, ⟨?_, ?_, ?_, fun _ => rfl⟩⟩
    · intro i j c d hc hd hc' hd'
      exact hlabels.distinct i j c d hc hd (active_of_stopping hc') (active_of_stopping hd')
    · intro j c hc hc'
      exact hlabels.free j c hc (active_of_stopping hc')
    · intro j c hc hc'
      exact hlabels.pending j c hc (active_of_stopping hc')
  | clear =>
    simp only [step, Option.ite_none_right_eq_some, Option.some.injEq] at hstep
    obtain ⟨⟨hstopping, hdone⟩, rfl⟩ := hstep
    obtain ⟨hresponses, hlabels⟩ := h
    have hsublist : List.Sublist (State.present { s with cleared := true, pendingLabels := ∅, asyncResults := ∅ })
        s.present := by
      refine List.Sublist.append ?_ (List.Sublist.refl _)
      exact List.Sublist.append (List.nil_sublist _) (List.Sublist.refl _)
    refine ⟨⟨hresponses.nodup.sublist hsublist, ?_, ?_, ?_, hresponses.tick, hresponses.inputs, hresponses.sound⟩,
      ⟨hlabels.distinct, fun _ _ _ _ => AList.notMem_empty _, fun _ _ _ _ hcleared => (nomatch hcleared),
        fun _ => hstopping⟩⟩
    · intro k call hcall _ haccepted
      exact List.mem_append_right _ (hresponses.mem_delivered hcall haccepted hdone)
    · intro _
      obtain ⟨htick, hall, -⟩ := hresponses.ended hdone
      exact ⟨htick, hall, fun _ hk => absurd hk List.not_mem_nil⟩
    · intro label k response hlookup
      simp at hlookup

/-- Every response is delivered exactly once, in every run in which no label is registered while a response waits under
it, every tick input with responses is encoded, and all accepted calls are over when the tick loop ends. -/
theorem async_delivered {as : List (Action D)} (hrun : run (step config) initial as = some s)
    (hcareful : Meets (step config) careful initial as) : Delivered s := by
  have h₀ : Inv (initial : State D) := by
    refine ⟨⟨List.nodup_nil, ?_, ?_, ?_, ?_, ?_, ?_⟩, ⟨?_, ?_, ?_, ?_⟩⟩ <;> simp [initial, Own]
  exact (run_invariant_of_meets (fun _ _ _ hs hc hstep => inv_step hs hc hstep) h₀ hcareful hrun).responses.delivered

/-- Two reads of a cache under one label. -/
def read : HostCallRequest := ⟨"cache", "get", "a"⟩

/-- The second call comes after the tick, and the module is stopped after the next one. -/
def afterTick : List (Action Nat) :=
  [.callAsync read, .call 0 (.ok 1), .call 0 (.ok 1), .call 0 (.ok 1), .call 0 (.ok 1), .call 0 (.ok 1), .tick,
    .marshal true,
    .callAsync read, .call 1 (.ok 2), .call 1 (.ok 2), .call 1 (.ok 2), .call 1 (.ok 2), .call 1 (.ok 2), .tick,
    .marshal true, .stop, .tickLoopExit, .clear]

theorem async_delivered_afterTick : ∃ s, run (step ⟨["cache"], []⟩) initial afterTick = some s ∧
    s.inputs.map AList.entries = [[⟨"a", 0, .ok 1⟩], [⟨"a", 1, .ok 2⟩]] ∧ Delivered s := by
  obtain ⟨s, hrun, hs⟩ := exists_run (step ⟨["cache"], []⟩) initial afterTick
    (p := fun s => decide (s.inputs.map AList.entries = [[⟨"a", 0, .ok 1⟩], [⟨"a", 1, .ok 2⟩]])) (by decide +kernel)
  exact ⟨s, hrun, of_decide_eq_true hs, async_delivered hrun (by decide +kernel)⟩

/-- The second call comes before the tick. -/
def beforeTick : List (Action Nat) :=
  [.callAsync read, .call 0 (.ok 1), .call 0 (.ok 1), .call 0 (.ok 1), .call 0 (.ok 1), .call 0 (.ok 1),
    .callAsync read, .call 1 (.ok 2), .call 1 (.ok 2), .call 1 (.ok 2), .call 1 (.ok 2), .call 1 (.ok 2), .tick,
    .marshal true]

/-- The response of the first call is lost. -/
theorem async_not_delivered : ∃ s, run (step ⟨["cache"], []⟩) initial beforeTick = some s ∧ ¬Delivered s := by
  obtain ⟨s, hrun, hs⟩ := exists_run (step ⟨["cache"], []⟩) initial beforeTick
    (p := fun s : State Nat => decide (s.calls[0]? = some (Call.mk read .finished (some (.ok 1)) true) ∧
      s.waiting.count 0 + s.delivered.count 0 = 0)) (by decide +kernel)
  obtain ⟨hcall, hcount⟩ := of_decide_eq_true hs
  refine ⟨s, hrun, fun h => ?_⟩
  rcases h.once 0 _ hcall rfl (by simp) with ⟨_, _, hadding⟩ | hone
  · exact nomatch hadding
  · rw [hcount] at hone
    exact nomatch hone

end Noda.Wasm.Async
