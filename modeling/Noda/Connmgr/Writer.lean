import Noda.Bounded.Consumer

/-!
# The writer of a connection

`wsWriter`: any number of goroutines call `send`, one goroutine takes the frames from the queue and writes them to the
socket, and `stop` is called from several places, among them the goroutine itself when a write fails.  The steps of the
calls on the queue are those of `Bounded.step`; the others are one step for each look at `done`, each call and each
return.

The frames are written in the order in which they were accepted, each once and none that `send` has refused; and as long
as a frame is in the queue, the goroutine does not wait (`frames_in_order`).
-/

namespace Noda.Connmgr.Writer

open Transition

variable {T : Type}

/-- `wsOutboundBuffer`, and the policy of the queue. -/
def queueConfig : Bounded.Config := ⟨64, by decide, .dropNewest⟩

inductive SendResult where
  | ok
  | closed
  | full
  deriving DecidableEq, Repr

/-- Where a call of `send` is: before its first look at `done`, in `Push`, before its second look, or at its end. -/
inductive SendPhase where
  | start
  | pushing
  | refused
  | returned (result : SendResult)
  deriving DecidableEq, Repr

/-- A call of `send`; `push` is the number of its `Push`, once it has called it. -/
structure Send (T : Type) where
  data : T
  push : Option Nat
  phase : SendPhase
  deriving DecidableEq, Repr

/-- `sync.Once`. -/
inductive Once where
  | idle
  | running
  | finished
  deriving DecidableEq, Repr

/-- Where a call of `stop` is: before `once.Do`, and in the function that this runs, before it closes `done`, before it
calls `Close`, in this call, and before it cancels the context. -/
inductive StopPhase where
  | start
  | stopping
  | closing
  | awaiting (close : Nat)
  | cancelling
  | returned
  deriving DecidableEq, Repr

/-- `failing` is the call of `stop` by the goroutine whose write has failed. -/
structure State (T : Type) where
  served : Bounded.Served T
  done : Bool
  once : Once
  sends : List (Send T)
  stops : List StopPhase
  failing : Option Nat

/-- `newWSWriter`. -/
def initial : State T := ⟨.start, false, .idle, [], [], none⟩

/-- A new call, a step of a call on the queue or of the watcher of a `Pop`, a step of a `send` or of a `stop`, what the
goroutine gets, how its write ends, and its end after a write that has failed. -/
inductive Action (T : Type) where
  | send (data : T)
  | stop
  | queue (i wakes : Nat)
  | watch (i : Nat) (stop : Bool)
  | sendStep (k : Nat)
  | stopStep (k : Nat)
  | receive
  | written (ok : Bool)
  | fail

namespace State

variable (s : State T)

def onQueue (a : Bounded.Action T) : Option (State T) :=
  (Bounded.step queueConfig s.served.queue a).map fun queue => { s with served := { s.served with queue } }

def call (new : Bounded.NewCall T) : State T :=
  { s with served := { s.served with queue := { s.served.queue with calls := s.served.queue.calls ++ [new.begin] } } }

def setSend (k : Nat) (call : Send T) : State T := { s with sends := s.sends.set k call }

def sendStep (k : Nat) (snd : Send T) : Option (State T) :=
  match snd.phase with
  | .start =>
    if s.done then some (s.setSend k { snd with phase := .returned .closed })
    else
      some ((s.call (.push snd.data)).setSend k
        { snd with phase := .pushing, push := some s.served.queue.calls.length })
  | .pushing =>
    match snd.push.bind (s.served.queue.calls[·]?) with
    | some (.push _ (.returned .accepted)) => some (s.setSend k { snd with phase := .returned .ok })
    | some (.push _ (.returned _)) => some (s.setSend k { snd with phase := .refused })
    | _ => none
  | .refused => some (s.setSend k { snd with phase := .returned (if s.done then .closed else .full) })
  | .returned _ => none

def setStop (k : Nat) (phase : StopPhase) : State T := { s with stops := s.stops.set k phase }

def stopStep (k : Nat) : StopPhase → Option (State T)
  | .start =>
    match s.once with
    | .idle => some { s.setStop k .stopping with once := .running }
    | .running => none
    | .finished => some (s.setStop k .returned)
  | .stopping => some { s.setStop k .closing with done := true }
  | .closing => some ((s.call .close).setStop k (.awaiting s.served.queue.calls.length))
  | .awaiting close =>
    match s.served.queue.calls[close]? with
    | some (.close .returned) => some (s.setStop k .cancelling)
    | _ => none
  | .cancelling =>
    (s.onQueue (.cancel Bounded.Served.ctx)).map fun s => { s.setStop k .returned with once := .finished }
  | .returned => none

/-- The write of a frame has ended. -/
def written (ok : Bool) : Option (State T) :=
  match s.served.consumer, s.failing with
  | .handling _, none =>
    if ok then some { s with served := s.served.again }
    else some { s with stops := s.stops ++ [.start], failing := some s.stops.length }
  | _, _ => none

/-- The goroutine ends when its call of `stop` has returned. -/
def fail : Option (State T) :=
  match s.served.consumer, s.failing.bind (s.stops[·]?) with
  | .handling _, some .returned => some { s with served := { s.served with consumer := .exited } }
  | _, _ => none

end State

def step (s : State T) : Action T → Option (State T)
  | .send data => some { s with sends := s.sends ++ [⟨data, none, .start⟩] }
  | .stop => some { s with stops := s.stops ++ [.start] }
  | .queue i wakes => s.onQueue (.step i wakes)
  | .watch i stop => s.onQueue (.watch i stop)
  | .sendStep k => (s.sends[k]?).bind (s.sendStep k)
  | .stopStep k => (s.stops[k]?).bind (s.stopStep k)
  | .receive => s.served.receive.map fun served => { s with served }
  | .written ok => s.written ok
  | .fail => s.fail

/-! ### The calls of `send` -/

/-- Where a call of `send` is tells where its `Push` is. -/
inductive Send.Ok (calls : List (Bounded.Call T)) : Send T → Prop where
  | start (v : T) : Send.Ok calls ⟨v, none, .start⟩
  | early (v : T) : Send.Ok calls ⟨v, none, .returned .closed⟩
  | pushing {v : T} {j : Nat} {pc : Bounded.PushPc} (h : calls[j]? = some (.push v pc)) :
      Send.Ok calls ⟨v, some j, .pushing⟩
  | accepted {v : T} {j : Nat} (h : calls[j]? = some (.push v (.returned .accepted))) :
      Send.Ok calls ⟨v, some j, .returned .ok⟩
  | refused {v : T} {j : Nat} {r : Bounded.PushResult} {phase : SendPhase}
      (h : calls[j]? = some (.push v (.returned r))) (hr : r ≠ .accepted)
      (hphase : phase = .refused ∨ phase = .returned .full ∨ phase = .returned .closed) :
      Send.Ok calls ⟨v, some j, phase⟩

section

variable {calls calls' : List (Bounded.Call T)} {sends : List (Send T)}

theorem Send.Ok.kept {snd : Send T} (h : snd.Ok calls) (hkept : Bounded.Kept calls calls') : snd.Ok calls' := by
  cases h with
  | start v => exact .start v
  | early v => exact .early v
  | pushing hj =>
    obtain ⟨pc', hj', -⟩ := hkept _ _ _ hj
    exact .pushing hj'
  | accepted hj =>
    obtain ⟨pc', hj', hret⟩ := hkept _ _ _ hj
    cases hret _ rfl
    exact .accepted hj'
  | refused hj hr hphase =>
    obtain ⟨pc', hj', hret⟩ := hkept _ _ _ hj
    cases hret _ rfl
    exact .refused hj' hr hphase

theorem Send.Ok.lt {snd : Send T} (h : snd.Ok calls) {j : Nat} (hj : snd.push = some j) : j < calls.length := by
  cases h with
  | start v | early v => cases hj
  | pushing hi | accepted hi | refused hi =>
    cases hj
    exact (List.getElem?_eq_some_iff.1 hi).1

/-- Each `Push` is one of one `send`. -/
structure Sent (calls : List (Bounded.Call T)) (sends : List (Send T)) : Prop where
  ok : ∀ (k : Nat) snd, sends[k]? = some snd → snd.Ok calls
  caller : ∀ (j : Nat) v pc, calls[j]? = some (.push v pc) →
    ∃ (k : Nat) (snd : Send T), sends[k]? = some snd ∧ snd.push = some j ∧ snd.data = v
  distinct : ∀ (k k' : Nat) (snd snd' : Send T) j, sends[k]? = some snd → sends[k']? = some snd' →
    snd.push = some j → snd'.push = some j → k = k'

/-- The calls on the queue go on, or one that is no `Push` begins. -/
theorem Sent.kept (h : Sent calls sends) (hkept : Bounded.Kept calls calls')
    (hback : ∀ (j : Nat) v pc', calls'[j]? = some (.push v pc') → ∃ pc, calls[j]? = some (.push v pc)) :
    Sent calls' sends := by
  refine ⟨fun k snd hk => (h.ok k snd hk).kept hkept, fun j v pc hj => ?_, h.distinct⟩
  obtain ⟨pc₀, hj₀⟩ := hback j v pc hj
  exact h.caller j v pc₀ hj₀

theorem Sent.follow {q : Bounded.State T} (h : Sent q.calls sends) (hf : Bounded.AllFollow q calls') :
    Sent calls' sends := by
  refine h.kept (Bounded.kept_of_allFollow hf) fun j v pc' hj => ?_
  obtain ⟨c, hc, hf⟩ := hf.of_getElem? hj
  cases hf with
  | push hret => exact ⟨_, hc⟩

theorem Sent.call (h : Sent calls sends) {c : Bounded.Call T} (hc : ∀ v pc, c ≠ .push v pc) :
    Sent (calls ++ [c]) sends := by
  refine h.kept (Bounded.kept_concat calls c) fun j v pc hj => ?_
  rcases Pool.getElem?_concat_some hj with hj | ⟨-, heq⟩
  · exact ⟨pc, hj⟩
  · exact absurd heq.symm (hc v pc)

theorem Sent.send (h : Sent calls sends) (v : T) : Sent calls (sends ++ [⟨v, none, .start⟩]) := by
  have hnew : ∀ {k : Nat} {snd : Send T}, (sends ++ [⟨v, none, .start⟩])[k]? = some snd →
      sends[k]? = some snd ∨ snd = ⟨v, none, .start⟩ :=
    fun hk => (Pool.getElem?_concat_some hk).imp_right And.right
  refine ⟨fun k snd hk => ?_, fun j u pc hj => ?_, fun k k' snd snd' j hk hk' hj hj' => ?_⟩
  · rcases hnew hk with hk | rfl
    · exact h.ok k snd hk
    · exact .start v
  · obtain ⟨k, snd, hk, hpush, hdata⟩ := h.caller j u pc hj
    have hlt := (List.getElem?_eq_some_iff.1 hk).1
    exact ⟨k, snd, (List.getElem?_append_left hlt).trans hk, hpush, hdata⟩
  · rcases hnew hk with hk | rfl
    · rcases hnew hk' with hk' | rfl
      · exact h.distinct k k' snd snd' j hk hk' hj hj'
      · cases hj'
    · cases hj

/-- A `send` goes on after its `Push`, or without one. -/
theorem Sent.set (h : Sent calls sends) {k : Nat} {snd snd' : Send T} (hk : sends[k]? = some snd) (hok : snd'.Ok calls)
    (hpush : snd'.push = snd.push) (hdata : snd'.data = snd.data) : Sent calls (sends.set k snd') := by
  have hlt := (List.getElem?_eq_some_iff.1 hk).1
  have hold : ∀ {i : Nat} {d : Send T}, (sends.set k snd')[i]? = some d →
      d.Ok calls ∧ ∃ d₀, sends[i]? = some d₀ ∧ d.push = d₀.push := by
    intro i d hi
    rcases Pool.getElem?_set_some hi with ⟨rfl, rfl⟩ | ⟨-, hi⟩
    · exact ⟨hok, snd, hk, hpush⟩
    · exact ⟨h.ok i d hi, d, hi, rfl⟩
  refine ⟨fun i d hi => (hold hi).1, fun j v pc hj => ?_, fun i i' d d' j hi hi' hj hj' => ?_⟩
  · obtain ⟨i, d, hi, hd, hv⟩ := h.caller j v pc hj
    by_cases hki : k = i
    · subst hki
      cases hk.symm.trans hi
      exact ⟨k, snd', List.getElem?_set_self hlt, hpush.trans hd, hdata.trans hv⟩
    · exact ⟨i, d, (List.getElem?_set_ne hki).trans hi, hd, hv⟩
  · obtain ⟨-, d₀, hi₀, hd₀⟩ := hold hi
    obtain ⟨-, d₀', hi₀', hd₀'⟩ := hold hi'
    exact h.distinct i i' d₀ d₀' j hi₀ hi₀' (hd₀.symm.trans hj) (hd₀'.symm.trans hj')

theorem Sent.push (h : Sent calls sends) {k : Nat} {v : T} (hk : sends[k]? = some ⟨v, none, .start⟩) :
    Sent (calls ++ [.push v .start]) (sends.set k ⟨v, some calls.length, .pushing⟩) := by
  have hlt := (List.getElem?_eq_some_iff.1 hk).1
  have hself : (calls ++ [.push v .start])[calls.length]? = some (.push v .start) := List.getElem?_concat_length
  have hother : ∀ {i : Nat} {d : Send T}, sends[i]? = some d → d.push ≠ some calls.length :=
    fun hi hd => absurd ((h.ok _ _ hi).lt hd) (Nat.lt_irrefl _)
  refine ⟨fun i d hi => ?_, fun j u pc hj => ?_, fun i i' d d' j hi hi' hj hj' => ?_⟩
  · rcases Pool.getElem?_set_some hi with ⟨-, rfl⟩ | ⟨-, hi⟩
    · exact .pushing hself
    · exact (h.ok i d hi).kept (Bounded.kept_concat calls _)
  · rcases Pool.getElem?_concat_some hj with hj | ⟨rfl, heq⟩
    · obtain ⟨i, d, hi, hd, hu⟩ := h.caller j u pc hj
      have hki : k ≠ i := by
        rintro rfl
        cases hk.symm.trans hi
        cases hd
      exact ⟨i, d, (List.getElem?_set_ne hki).trans hi, hd, hu⟩
    · cases heq
      exact ⟨k, _, List.getElem?_set_self hlt, rfl, rfl⟩
  · rcases Pool.getElem?_set_some hi with ⟨rfl, rfl⟩ | ⟨-, hi₀⟩
    · cases hj
      rcases Pool.getElem?_set_some hi' with ⟨rfl, -⟩ | ⟨-, hi₀'⟩
      · rfl
      · exact absurd hj' (hother hi₀')
    · rcases Pool.getElem?_set_some hi' with ⟨rfl, rfl⟩ | ⟨-, hi₀'⟩
      · cases hj'
        exact absurd hj (hother hi₀)
      · exact h.distinct i i' d d' j hi₀ hi₀' hj hj'

end

/-! ### The calls of `stop` -/

/-- In the function that `once.Do` runs. -/
def StopPhase.isInside : StopPhase → Bool
  | .start | .returned => false
  | _ => true

/-- Nothing has been stopped. -/
structure Quiet (d : Bounded.Served T) (stops : List StopPhase) (once : Once) : Prop where
  opened : d.Open
  stops : ∀ p ∈ stops, p = .start ∨ p = .stopping
  once : once ≠ .finished

structure Inv (s : State T) : Prop where
  served : s.served.Ok queueConfig
  sent : Sent s.served.queue.calls s.sends
  quiet : s.done = false → Quiet s.served s.stops s.once
  inside : s.stops.countP StopPhase.isInside = if s.once = .running then 1 else 0
  fresh : s.once = .idle ∨ .stopping ∈ s.stops → s.done = false

theorem inv_initial : Inv (initial : State T) where
  served := Bounded.Served.ok_start queueConfig
  sent := by
    refine ⟨fun k snd hk => ?_, fun j v pc hj => ?_, fun k k' snd snd' j hk => ?_⟩
    · cases hk
    · cases j with
      | zero => cases hj
      | succ j => cases hj
    · cases hk
  quiet := by
    intro _
    refine ⟨Bounded.Served.open_start, fun p hp => ?_, by simp [initial]⟩
    cases hp
  inside := rfl
  fresh := fun _ => rfl

section

variable {s s' : State T}

private theorem inv_onQueue (h : Inv s) {a : Bounded.Action T} (hcall : ∀ c, a ≠ .call c) (hcancel : ∀ c, a ≠ .cancel c)
    (hstep : s.onQueue a = some s') : Inv s' := by
  obtain ⟨queue', hqueue, rfl⟩ := Option.map_eq_some_iff.1 hstep
  have hf := Bounded.allFollow_of_step hcall hqueue
  exact {
    served := h.served.step (fun c => hcall (.pop c)) hqueue
    sent := h.sent.follow hf
    quiet := fun hdone => ⟨(h.quiet hdone).opened.step hcancel hf hqueue, (h.quiet hdone).stops, (h.quiet hdone).once⟩
    inside := h.inside
    fresh := h.fresh }

private theorem inv_sendStep (h : Inv s) {k : Nat} {snd : Send T} (hk : s.sends[k]? = some snd)
    (hstep : s.sendStep k snd = some s') : Inv s' := by
  have hok := h.sent.ok k snd hk
  -- only the calls of `send` change, and in the end one
  have hset : ∀ snd' : Send T, snd'.Ok s.served.queue.calls → snd'.push = snd.push → snd'.data = snd.data →
      Inv (s.setSend k snd') :=
    fun snd' hok' hpush hdata => ⟨h.served, h.sent.set hk hok' hpush hdata, h.quiet, h.inside, h.fresh⟩
  cases hok with
  | early v => cases hstep
  | accepted hj => cases hstep
  | start v =>
    simp only [State.sendStep] at hstep
    split_ifs at hstep with hdone
    · cases hstep
      exact hset _ (.early v) rfl rfl
    · cases hstep
      have hserved := h.served.step (a := .call (.push v)) (by simp) rfl
      refine ⟨hserved, h.sent.push hk, fun hdone => ?_, h.inside, h.fresh⟩
      have hquiet := h.quiet hdone
      exact ⟨hquiet.opened.call (by simp [Bounded.NewCall.begin]), hquiet.stops, hquiet.once⟩
  | @pushing v j pc hj =>
    simp only [State.sendStep, Option.bind_some, hj] at hstep
    cases pc with
    | start | locking => cases hstep
    | returned r =>
      cases r with
      | accepted =>
        cases hstep
        exact hset _ (.accepted hj) rfl rfl
      | full | closed =>
        cases hstep
        exact hset _ (.refused hj (by simp) (.inl rfl)) rfl rfl
  | refused hj hr hphase =>
    rcases hphase with rfl | rfl | rfl
    · cases hstep
      refine hset _ (.refused hj hr (.inr ?_)) rfl rfl
      split_ifs
      · exact .inr rfl
      · exact .inl rfl
    · cases hstep
    · cases hstep

/-- A call of `stop` goes on outside of the function that `once.Do` runs. -/
private theorem inside_set {stops : List StopPhase} {k : Nat} {p : StopPhase} (p' : StopPhase) (hk : stops[k]? = some p)
    (hp : p'.isInside = p.isInside) :
    (stops.set k p').countP StopPhase.isInside = stops.countP StopPhase.isInside := by
  have hcount := Pool.countP_set StopPhase.isInside hk p'
  rw [hp] at hcount
  omega

/-- There is one call in the function. -/
private theorem once_running (h : Inv s) {k : Nat} {p : StopPhase} (hk : s.stops[k]? = some p)
    (hp : p.isInside = true) :
    s.once = .running ∧ ∀ (k' : Nat) p', s.stops[k']? = some p' → p'.isInside = true → k' = k := by
  have hpos : 0 < s.stops.countP StopPhase.isInside := List.countP_pos_iff.2 ⟨p, List.mem_of_getElem? hk, hp⟩
  have honce : s.once = .running := by
    by_contra hne
    rw [h.inside, if_neg hne] at hpos
    exact Nat.lt_irrefl 0 hpos
  refine ⟨honce, fun k' p' hk' hp' => ?_⟩
  by_contra hne
  have hcount := Pool.countP_set StopPhase.isInside hk .returned
  rw [h.inside, if_pos honce, if_pos hp, if_neg (by decide)] at hcount
  have hstays : (s.stops.set k .returned)[k']? = some p' := (List.getElem?_set_ne (Ne.symm hne)).trans hk'
  have hpos' : 0 < (s.stops.set k .returned).countP StopPhase.isInside :=
    List.countP_pos_iff.2 ⟨p', List.mem_of_getElem? hstays, hp'⟩
  omega

private theorem inv_stopStep (h : Inv s) {k : Nat} {p : StopPhase} (hk : s.stops[k]? = some p)
    (hstep : s.stopStep k p = some s') : Inv s' := by
  have hmem := List.mem_of_getElem? hk
  have hfresh : ∀ p', p' ≠ .stopping → .stopping ∈ s.stops.set k p' → s.done = false := by
    intro p' hp' hin
    rcases List.mem_or_eq_of_mem_set hin with hin | heq
    · exact h.fresh (.inr hin)
    · exact absurd heq.symm hp'
  have hlate : p ≠ .start → p ≠ .stopping → s.done ≠ false :=
    fun hstart hstopping hdone => ((h.quiet hdone).stops p hmem).elim hstart hstopping
  cases p with
  | start =>
    simp only [State.stopStep] at hstep
    cases honce : s.once with
    | idle =>
      rw [honce] at hstep
      cases hstep
      have hdone := h.fresh (.inl honce)
      have hquiet := h.quiet hdone
      refine ⟨h.served, h.sent, fun _ => ⟨hquiet.opened, fun p hp => ?_, by simp⟩, ?_, fun _ => hdone⟩
      · rcases List.mem_or_eq_of_mem_set hp with hp | rfl
        · exact hquiet.stops p hp
        · exact .inr rfl
      · have hcount := Pool.countP_set StopPhase.isInside hk .stopping
        rw [h.inside, honce] at hcount
        exact hcount
    | running =>
      rw [honce] at hstep
      cases hstep
    | finished =>
      rw [honce] at hstep
      cases hstep
      refine ⟨h.served, h.sent, fun hdone => absurd honce (h.quiet hdone).once,
        (inside_set .returned hk rfl).trans h.inside, ?_⟩
      rintro (hidle | hin)
      · exact absurd (hidle.symm.trans honce) (by simp)
      · exact hfresh _ (by simp) hin
  | stopping =>
    cases hstep
    obtain ⟨honce, hunique⟩ := once_running h hk rfl
    refine ⟨h.served, h.sent, (fun hdone => by cases hdone), (inside_set .closing hk rfl).trans h.inside, ?_⟩
    rintro (hidle | hin)
    · exact absurd (hidle.symm.trans honce) (by simp)
    · obtain ⟨k', hk'⟩ := List.mem_iff_getElem?.1 hin
      rcases Pool.getElem?_set_some hk' with ⟨-, heq⟩ | ⟨hne, hk'⟩
      · cases heq
      · exact absurd (hunique k' _ hk' rfl) hne
  | closing =>
    cases hstep
    have hserved := h.served.step (a := .call .close) (by simp) rfl
    refine ⟨hserved, h.sent.call (by simp [Bounded.NewCall.begin]),
      fun hdone => absurd hdone (hlate (by simp) (by simp)), (inside_set (.awaiting _) hk rfl).trans h.inside, ?_⟩
    rintro (hidle | hin)
    · exact h.fresh (.inl hidle)
    · exact hfresh _ (by simp) hin
  | awaiting close =>
    simp only [State.stopStep] at hstep
    split at hstep
    · cases hstep
      refine ⟨h.served, h.sent, fun hdone => absurd hdone (hlate (by simp) (by simp)),
        (inside_set .cancelling hk rfl).trans h.inside, ?_⟩
      rintro (hidle | hin)
      · exact h.fresh (.inl hidle)
      · exact hfresh _ (by simp) hin
    · cases hstep
  | cancelling =>
    simp only [State.stopStep] at hstep
    obtain ⟨t, ht, rfl⟩ := Option.map_eq_some_iff.1 hstep
    obtain ⟨queue', hqueue, rfl⟩ := Option.map_eq_some_iff.1 ht
    obtain ⟨honce, -⟩ := once_running h hk rfl
    have hf := Bounded.allFollow_of_step (by simp) hqueue
    refine ⟨h.served.step (by simp) hqueue, h.sent.follow hf, fun hdone => absurd hdone (hlate (by simp) (by simp)),
      ?_, ?_⟩
    · have hcount := Pool.countP_set StopPhase.isInside hk .returned
      rw [h.inside, if_pos honce] at hcount
      exact Nat.succ.inj hcount
    · rintro (hidle | hin)
      · cases hidle
      · exact hfresh _ (by simp) hin
  | returned => cases hstep

/-- A new call of `stop`. -/
private theorem inv_stop (h : Inv s) (failing : Option Nat) : Inv { s with stops := s.stops ++ [.start], failing } := by
  refine ⟨h.served, h.sent, fun hdone => ?_, ?_, ?_⟩
  · have hquiet := h.quiet hdone
    refine ⟨hquiet.opened, fun p hp => ?_, hquiet.once⟩
    rcases List.mem_append.1 hp with hp | hp
    · exact hquiet.stops p hp
    · exact .inl (List.mem_singleton.1 hp)
  · rw [List.countP_append, h.inside]
    rfl
  · rintro (hidle | hin)
    · exact h.fresh (.inl hidle)
    · rcases List.mem_append.1 hin with hin | hin
      · exact h.fresh (.inr hin)
      · cases List.mem_singleton.1 hin

private theorem inv_receive (h : Inv s) {d : Bounded.Served T} (hstep : s.served.receive = some d) :
    Inv { s with served := d } := by
  obtain ⟨hok, hqueue, -⟩ := h.served.receive hstep
  refine ⟨hok, by rw [hqueue]; exact h.sent, fun hdone => ?_, h.inside, h.fresh⟩
  have hquiet := h.quiet hdone
  exact ⟨hquiet.opened.receive h.served hstep, hquiet.stops, hquiet.once⟩

private theorem inv_written (h : Inv s) {ok : Bool} (hstep : s.written ok = some s') : Inv s' := by
  unfold State.written at hstep
  split at hstep
  · rename_i v hconsumer hfailing
    split_ifs at hstep
    · cases hstep
      refine ⟨h.served.again hconsumer, h.sent.call (by simp), fun hdone => ?_, h.inside, h.fresh⟩
      have hquiet := h.quiet hdone
      exact ⟨hquiet.opened.again, hquiet.stops, hquiet.once⟩
    · cases hstep
      exact inv_stop h _
  · cases hstep

private theorem inv_fail (h : Inv s) (hstep : s.fail = some s') : Inv s' := by
  unfold State.fail at hstep
  split at hstep
  · rename_i v hconsumer hfailing
    cases hstep
    obtain ⟨k, -, hk⟩ := Option.bind_eq_some_iff.1 hfailing
    refine ⟨h.served.exit hconsumer, h.sent, fun hdone => ?_, h.inside, h.fresh⟩
    have hstops := (h.quiet hdone).stops _ (List.mem_of_getElem? hk)
    simp at hstops
  · cases hstep

theorem inv_step (s : State T) (a : Action T) (s' : State T) (h : Inv s) (hstep : step s a = some s') : Inv s' := by
  cases a with
  | send data =>
    cases hstep
    exact ⟨h.served, h.sent.send data, h.quiet, h.inside, h.fresh⟩
  | stop =>
    cases hstep
    exact inv_stop h s.failing
  | queue i wakes => exact inv_onQueue h (by simp) (by simp) hstep
  | watch i stop => exact inv_onQueue h (by simp) (by simp) hstep
  | sendStep k =>
    obtain ⟨snd, hk, hstep⟩ := Option.bind_eq_some_iff.1 hstep
    exact inv_sendStep h hk hstep
  | stopStep k =>
    obtain ⟨p, hk, hstep⟩ := Option.bind_eq_some_iff.1 hstep
    exact inv_stopStep h hk hstep
  | receive =>
    obtain ⟨d, hd, rfl⟩ := Option.map_eq_some_iff.1 hstep
    exact inv_receive h hd
  | written ok => exact inv_written h hstep
  | fail => exact inv_fail h hstep

end

/-! ### Every reachable state -/

section

variable {s s' : State T}

namespace State

/-- The `Push` of the call was accepted. -/
def isAccepted (s : State T) (k : Nat) : Bool :=
  match ((s.sends[k]?).bind Send.push).bind (s.served.queue.calls[·]?) with
  | some (.push _ (.returned .accepted)) => true
  | _ => false

def dataOf (s : State T) (k : Nat) : Option T := (s.sends[k]?).map Send.data

/-- The call of `send` that has made the call on the queue. -/
def sender (s : State T) (j : Nat) : Nat := s.sends.findIdx fun snd => snd.push == some j

/-- The calls of `send` whose frames were accepted, in this order. -/
def order (s : State T) : List Nat := s.served.queue.accepted.map fun e => s.sender e.1

end State

private theorem sender_eq (h : Sent s.served.queue.calls s.sends) {k j : Nat} {snd : Send T}
    (hk : s.sends[k]? = some snd)
    (hj : snd.push = some j) : s.sender j = k := by
  have hlt : s.sends.findIdx (fun snd => snd.push == some j) < s.sends.length :=
    List.findIdx_lt_length_of_exists ⟨snd, List.mem_of_getElem? hk, by simp [hj]⟩
  have hfound := List.findIdx_getElem (w := hlt)
  exact h.distinct _ k _ snd j (List.getElem?_eq_getElem hlt) hk (by simpa using hfound) hj

private theorem sender_of_mem (h : Inv s) {j : Nat} {v : T} (hj : (j, v) ∈ s.served.queue.accepted) :
    ∃ snd, s.sends[s.sender j]? = some snd ∧ snd.push = some j ∧ snd.data = v := by
  obtain ⟨k, snd, hk, hpush, hdata⟩ := h.sent.caller j v _ ((Bounded.mem_accepted_iff h.served.inv).1 hj)
  rw [sender_eq h.sent hk hpush]
  exact ⟨snd, hk, hpush, hdata⟩

private theorem isAccepted_iff (h : Inv s) {k : Nat} : s.isAccepted k = true ↔
    ∃ snd j, s.sends[k]? = some snd ∧ snd.push = some j ∧ (j, snd.data) ∈ s.served.queue.accepted := by
  constructor
  · intro hk
    unfold State.isAccepted at hk
    split at hk
    · rename_i v heq
      obtain ⟨j, hpush, hj⟩ := Option.bind_eq_some_iff.1 heq
      obtain ⟨snd, hsnd, hpush⟩ := Option.bind_eq_some_iff.1 hpush
      have hmem := (Bounded.mem_accepted_iff h.served.inv).2 hj
      obtain ⟨snd', hsnd', -, hdata⟩ := sender_of_mem h hmem
      rw [sender_eq h.sent hsnd hpush] at hsnd'
      cases hsnd.symm.trans hsnd'
      exact ⟨snd, j, hsnd, hpush, hdata ▸ hmem⟩
    · cases hk
  · rintro ⟨snd, j, hk, hpush, hmem⟩
    simp only [State.isAccepted, hk, Option.bind_some, hpush, (Bounded.mem_accepted_iff h.served.inv).1 hmem]

private theorem order_nodup (h : Inv s) : s.order.Nodup := by
  have hnodup := Bounded.accepted_nodup h.served.inv
  have hinj : ∀ e ∈ s.served.queue.accepted, ∀ e' ∈ s.served.queue.accepted, s.sender e.1 = s.sender e'.1 →
      e.1 = e'.1 := by
    rintro ⟨j, v⟩ he ⟨j', v'⟩ he' heq
    obtain ⟨snd, hk, hpush, -⟩ := sender_of_mem h he
    obtain ⟨snd', hk', hpush', -⟩ := sender_of_mem h he'
    rw [← heq] at hk'
    cases hk.symm.trans hk'
    exact Option.some.inj (hpush.symm.trans hpush')
  rw [List.Nodup, List.pairwise_map] at hnodup
  rw [State.order, List.Nodup, List.pairwise_map]
  exact hnodup.imp_of_mem fun he he' hne heq => hne (hinj _ he _ he' heq)

private theorem mem_order_iff (h : Inv s) {k : Nat} : k ∈ s.order ↔ s.isAccepted k = true := by
  rw [isAccepted_iff h, State.order, List.mem_map]
  constructor
  · rintro ⟨⟨j, v⟩, hmem, rfl⟩
    obtain ⟨snd, hk, hpush, rfl⟩ := sender_of_mem h hmem
    exact ⟨snd, j, hk, hpush, hmem⟩
  · rintro ⟨snd, j, hk, hpush, hmem⟩
    exact ⟨_, hmem, sender_eq h.sent hk hpush⟩

private theorem order_data (h : Inv s) :
    s.order.map s.dataOf = (s.served.handled ++ s.served.hand ++ s.served.queue.buf).map some := by
  obtain ⟨removed, haccepted, hhandled, hevicted⟩ := h.served.order
  have hall : removed.filter (·.2.isSome) = removed := List.filter_eq_self.2 (hevicted (by decide))
  rw [hall] at hhandled
  rw [← hhandled, ← haccepted, State.order, List.map_map, List.map_map]
  refine List.map_congr_left fun e he => ?_
  obtain ⟨snd, hk, -, hdata⟩ := sender_of_mem h he
  simp only [Function.comp_apply, State.dataOf, hk, Option.map_some, hdata]

/-- What was accepted stays so, and a `send` keeps its `Push`. -/
structure Grows (s s' : State T) : Prop where
  accepted : s.served.queue.accepted <+: s'.served.queue.accepted
  push : ∀ (k j : Nat) (snd : Send T), s.sends[k]? = some snd → snd.push = some j →
    ∃ snd', s'.sends[k]? = some snd' ∧ snd'.push = some j

theorem Grows.of_eq (haccepted : s.served.queue.accepted <+: s'.served.queue.accepted) (hsends : s'.sends = s.sends) :
    Grows s s' :=
  ⟨haccepted, fun k j snd hk hj => ⟨snd, by rw [hsends]; exact hk, hj⟩⟩

private theorem grows_onQueue {a : Bounded.Action T} (hstep : s.onQueue a = some s') : Grows s s' := by
  obtain ⟨queue', hqueue, rfl⟩ := Option.map_eq_some_iff.1 hstep
  exact .of_eq (Bounded.accepted_prefix hqueue) rfl

private theorem grows_sendStep {k : Nat} {snd : Send T} (hk : s.sends[k]? = some snd)
    (hok : snd.Ok s.served.queue.calls)
    (hstep : s.sendStep k snd = some s') : Grows s s' := by
  have hlt := (List.getElem?_eq_some_iff.1 hk).1
  have hset : ∀ snd' : Send T, s'.sends = s.sends.set k snd' →
      s'.served.queue.accepted = s.served.queue.accepted → (∀ j, snd.push = some j → snd'.push = some j) →
      Grows s s' := by
    intro snd' hsends haccepted hpush
    refine ⟨haccepted ▸ List.prefix_refl _, fun i j d hi hj => ?_⟩
    rw [hsends]
    by_cases hki : k = i
    · subst hki
      cases hk.symm.trans hi
      exact ⟨snd', List.getElem?_set_self hlt, hpush j hj⟩
    · exact ⟨d, (List.getElem?_set_ne hki).trans hi, hj⟩
  cases hok with
  | early v => cases hstep
  | accepted hj => cases hstep
  | start v =>
    simp only [State.sendStep] at hstep
    split_ifs at hstep
    · cases hstep
      exact hset _ rfl rfl fun j => id
    · cases hstep
      exact hset _ rfl rfl fun j hj => by cases hj
  | @pushing v j pc hj =>
    simp only [State.sendStep, Option.bind_some, hj] at hstep
    split at hstep
    · cases hstep
      exact hset _ rfl rfl fun j => id
    · cases hstep
      exact hset _ rfl rfl fun j => id
    · cases hstep
  | refused hj hr hphase =>
    rcases hphase with rfl | rfl | rfl
    · cases hstep
      exact hset _ rfl rfl fun j => id
    · cases hstep
    · cases hstep

private theorem grows_stopStep {k : Nat} {p : StopPhase} (hstep : s.stopStep k p = some s') : Grows s s' := by
  cases p with
  | start =>
    simp only [State.stopStep] at hstep
    split at hstep
    · cases hstep
      exact .of_eq (List.prefix_refl _) rfl
    · cases hstep
    · cases hstep
      exact .of_eq (List.prefix_refl _) rfl
  | stopping | closing =>
    cases hstep
    exact .of_eq (List.prefix_refl _) rfl
  | awaiting close =>
    simp only [State.stopStep] at hstep
    split at hstep
    · cases hstep
      exact .of_eq (List.prefix_refl _) rfl
    · cases hstep
  | cancelling =>
    simp only [State.stopStep] at hstep
    obtain ⟨t, ht, rfl⟩ := Option.map_eq_some_iff.1 hstep
    have hgrows := grows_onQueue ht
    exact ⟨hgrows.accepted, hgrows.push⟩
  | returned => cases hstep

private theorem grows_step {a : Action T} (h : Inv s) (hstep : step s a = some s') : Grows s s' := by
  cases a with
  | send data =>
    cases hstep
    refine ⟨List.prefix_refl _, fun k j snd hk hj => ⟨snd, ?_, hj⟩⟩
    exact (List.getElem?_append_left (List.getElem?_eq_some_iff.1 hk).1).trans hk
  | stop =>
    cases hstep
    exact .of_eq (List.prefix_refl _) rfl
  | queue i wakes => exact grows_onQueue hstep
  | watch i stop => exact grows_onQueue hstep
  | sendStep k =>
    obtain ⟨snd, hk, hstep⟩ := Option.bind_eq_some_iff.1 hstep
    exact grows_sendStep hk (h.sent.ok k snd hk) hstep
  | stopStep k =>
    obtain ⟨p, -, hstep⟩ := Option.bind_eq_some_iff.1 hstep
    exact grows_stopStep hstep
  | receive =>
    obtain ⟨d, hd, rfl⟩ := Option.map_eq_some_iff.1 hstep
    obtain ⟨-, hqueue, -⟩ := h.served.receive hd
    exact .of_eq (by simp only [hqueue]; exact List.prefix_refl _) rfl
  | written ok =>
    simp only [step, State.written] at hstep
    split at hstep
    · split_ifs at hstep
      · cases hstep
        exact .of_eq (List.prefix_refl _) rfl
      · cases hstep
        exact .of_eq (List.prefix_refl _) rfl
    · cases hstep
  | fail =>
    simp only [step, State.fail] at hstep
    split at hstep
    · cases hstep
      exact .of_eq (List.prefix_refl _) rfl
    · cases hstep

private theorem order_step (h : Inv s) {a : Action T} (hstep : step s a = some s') : s.order <+: s'.order := by
  have hgrows := grows_step h hstep
  have h' : Inv s' := inv_step s a s' h hstep
  have hsame : s.order = s.served.queue.accepted.map fun e => s'.sender e.1 := by
    refine List.map_congr_left fun e he => ?_
    obtain ⟨snd, hk, hpush, -⟩ := sender_of_mem h he
    obtain ⟨snd', hk', hpush'⟩ := hgrows.push _ _ snd hk hpush
    exact (sender_eq h'.sent hk' hpush').symm
  rw [hsame]
  exact hgrows.accepted.map _

/-- What is right about a writer. -/
structure Correct (s : State T) : Prop where
  /-- the frames that were accepted, in this order: those that were written, the one that the goroutine is about to
  get, and those in the queue -/
  frames : s.order.map s.dataOf = (s.served.handled ++ s.served.hand ++ s.served.queue.buf).map some
  nodup : s.order.Nodup
  accepted : ∀ k, k ∈ s.order ↔ s.isAccepted k = true
  /-- what comes later is written later -/
  later : ∀ as t, run step s as = some t → s.order <+: t.order
  /-- a `send` returns an error if its frame is not accepted, and only then -/
  result : ∀ (k : Nat) snd r, s.sends[k]? = some snd → snd.phase = .returned r → (s.isAccepted k = true ↔ r = .ok)
  bounded : s.served.queue.buf.length ≤ 64
  /-- the goroutine does not wait while there is a frame in the queue, -/
  waits : ∀ (i : Nat) c w, s.served.queue.calls[i]? = some (.pop c .parked w) → s.served.queue.buf = []
  /-- and it ends only after a `stop` -/
  exits : s.served.consumer = .exited → s.done = true
  /-- `done` is closed once -/
  closes : .stopping ∈ s.stops → s.done = false

private theorem result_iff (h : Inv s) {k : Nat} {snd : Send T} {r : SendResult} (hk : s.sends[k]? = some snd)
    (hphase : snd.phase = .returned r) : s.isAccepted k = true ↔ r = .ok := by
  have hok := h.sent.ok k snd hk
  cases hok with
  | start v => cases hphase
  | pushing hj => cases hphase
  | early v =>
    cases hphase
    simp [State.isAccepted, hk]
  | accepted hj =>
    cases hphase
    simp [State.isAccepted, hk, hj]
  | @refused v j r' phase hj hr hphase' =>
    have hnot : s.isAccepted k = false := by
      cases r' with
      | accepted => exact absurd rfl hr
      | full | closed => simp [State.isAccepted, hk, hj]
    rw [hnot]
    rcases hphase' with rfl | rfl | rfl
    · cases hphase
    · cases hphase
      simp
    · cases hphase
      simp

/-- However the calls of `send` and `stop` and the goroutine fall: the frames that it writes are those that were
accepted, each once and in this order, up to the ones that it has still to write; a `send` tells whether its frame is
among them; the goroutine does not wait while there is one, and ends only after a `stop`. -/
theorem frames_in_order (s : State T) (h : Reachable step initial s) : Correct s := by
  have hinv : Inv s := h.invariant inv_initial inv_step
  exact {
    frames := order_data hinv
    nodup := order_nodup hinv
    accepted := fun k => mem_order_iff hinv
    later := by
      intro as t hrun
      have hstep : ∀ (r : State T) a r', Inv r ∧ s.order <+: r.order → step r a = some r' →
          Inv r' ∧ s.order <+: r'.order :=
        fun r a r' hr ha => ⟨inv_step r a r' hr.1 ha, hr.2.trans (order_step hr.1 ha)⟩
      exact (run_invariant hstep ⟨hinv, List.prefix_refl _⟩ hrun).2
    result := fun k snd r hk hphase => result_iff hinv hk hphase
    bounded := hinv.served.inv.fifo.bounded
    waits := fun i c w hi => hinv.served.buf_of_parked hi
    exits := by
      intro hexited
      by_contra hdone
      exact (hinv.quiet (Bool.eq_false_iff.2 hdone)).opened.consumer hexited
    closes := fun hin => hinv.fresh (.inr hin) }

/-- Two calls of `send`, of which the second comes first; the second write fails, and a third call is refused. -/
theorem frames_in_order_failed : ∃ s : State Nat, s.order = [1, 0] ∧ s.served.handled = [6, 5] ∧
    s.served.consumer = .exited ∧ s.isAccepted 2 = false ∧ Correct s := by
  obtain ⟨s, hrun, hs⟩ := exists_run step (initial : State Nat)
    [.send 5, .send 6, .sendStep 1, .sendStep 0, .queue 1 0, .queue 1 0, .queue 2 0, .queue 2 0, .sendStep 0,
      .sendStep 1, .queue 0 0, .receive, .written true, .queue 3 0, .receive, .written false, .stopStep 0, .stopStep 0,
      .stopStep 0, .queue 4 0, .queue 4 0, .stopStep 0, .stopStep 0, .fail, .send 7, .sendStep 2]
    (p := fun s => s.order = [1, 0] ∧ s.served.handled = [6, 5] ∧ s.served.consumer = .exited ∧
      s.isAccepted 2 = false) (by decide +kernel)
  obtain ⟨horder, hhandled, hexited, hrefused⟩ := of_decide_eq_true hs
  exact ⟨s, horder, hhandled, hexited, hrefused, frames_in_order s ⟨_, hrun⟩⟩

end

end Noda.Connmgr.Writer
