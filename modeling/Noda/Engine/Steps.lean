import Noda.Engine.Trace

/-!
# The steps of a run

`step_cases` and `Move` say once what a step can do.  A step of the run starts an entry node, moves a goroutine, ends
the context or returns the result; `Move` lists the moves of a goroutine with their effects on the shared state.
-/

namespace Noda.Engine

variable {D : Type} {g : CompiledGraph} {reg : Registries D} {s s' : RunState D}

/-- The moves of the goroutine of `n`. -/
inductive Move (g : CompiledGraph) (reg : Registries D) (s : RunState D) (n : String) : Pc D → Pc D → Effect D → Prop
  | leave (h : s.ctxErr ≠ none) : Move g reg s n .start .finished .leave
  | begin (h : n ∈ g.nodes) : Move g reg s n .start (.dispatching none) .quiet
  | absent (h : n ∉ g.nodes) : Move g reg s n .start .finished .panic
  | reject (retry : Option RetryLoop) (e : NodeFailure) :
      Move g reg s n (.dispatching retry) (.returned retry (.error e)) .quiet
  | register (retry : Option RetryLoop) (services : List (String × D)) (h : prepare reg (g.node n) = .ok services) :
      Move g reg s n (.dispatching retry) (.executing retry services) .register
  | ret (retry : Option RetryLoop) (services : List (String × D)) (r : ExecResult D) (avail : List String) :
      Move g reg s n (.executing retry services) (.storing retry (executeNode (g.node n) r) avail)
        (.ret services (executeNode (g.node n) r))
  | store (retry : Option RetryLoop) (r : ExecResult D) (avail : List String) :
      Move g reg s n (.storing retry r avail) (.returned retry (conclude (g.node n) avail r s.exec).2) (.store r avail)
  | broken (retry : Option RetryLoop) (res : Except NodeFailure String) (e : WorkflowError D) :
      Move g reg s n (.returned retry res) (.failing e) .quiet
  | firstRetry (policy : RetryConfig) (rest : List RetryConfig) (h : retryPolicies g n = policy :: rest) :
      Move g reg s n (.returned none (.ok "error")) (.retrying ⟨policy, 1, rest⟩) .quiet
  | again (loop : RetryLoop) :
      Move g reg s n (.returned (some loop) (.ok "error")) (.retrying { loop with attempt := loop.attempt + 1 }) .quiet
  | settle (retry : Option RetryLoop) (o : String) (h : o = "error" → g.targets n o ≠ []) :
      Move g reg s n (.returned retry (.ok o)) (.completing o (consumedKeys g n)) (.complete o)
  | attempt (loop : RetryLoop) (h : (loop.attempt : Int) ≤ loop.policy.attempts) :
      Move g reg s n (.retrying loop) (.dispatching (some loop)) .quiet
  | nextRetry (loop : RetryLoop) (policy : RetryConfig) (rest : List RetryConfig) (h : loop.rest = policy :: rest) :
      Move g reg s n (.retrying loop) (.retrying ⟨policy, 1, rest⟩) .quiet
  | giveUp (loop : RetryLoop) :
      Move g reg s n (.retrying loop) (.completing "error" (consumedKeys g n)) (.complete "error")
  | fail (e : WorkflowError D) : Move g reg s n (.failing e) .cancelling (.fail e)
  | cancel : Move g reg s n .cancelling .finished .cancel
  | follow (o : String) : Move g reg s n (.completing o []) (.following o (g.targets n o)) .quiet
  | untracked (o key : String) (keys : List String) (h : s.refs.lookup key = none) :
      Move g reg s n (.completing o (key :: keys)) (.completing o keys) .quiet
  | release (o key : String) (keys : List String) (ref : Int) (h : s.refs.lookup key = some ref) (hne : ref - 1 ≠ 0) :
      Move g reg s n (.completing o (key :: keys)) (.completing o keys) (.release key)
  | lastRelease (o key : String) (keys : List String) (h : s.refs.lookup key = some 1) :
      Move g reg s n (.completing o (key :: keys)) (.evicting o key keys) (.release key)
  | evict (o key : String) (keys : List String) :
      Move g reg s n (.evicting o key keys) (.completing o keys) (.evict key)
  | done (o : String) : Move g reg s n (.following o []) .finished .quiet
  | outOfRange (o t : String) (ts : List String) (h : (s.groupSeen t)[(g.groupOf t n).getD 0]? = none) :
      Move g reg s n (.following o (t :: ts)) .finished .panic
  | repeated (o t : String) (ts : List String) (h : (s.groupSeen t)[(g.groupOf t n).getD 0]? = some true) :
      Move g reg s n (.following o (t :: ts)) (.following o ts) (.arrive o t ((g.groupOf t n).getD 0))
  | arrive (o t : String) (ts : List String) (h : (s.groupSeen t)[(g.groupOf t n).getD 0]? = some false) :
      Move g reg s n (.following o (t :: ts)) (.arriving o t ts) (.arrive o t ((g.groupOf t n).getD 0))
  | count (o t : String) (ts : List String) : Move g reg s n (.arriving o t ts) (.following o ts) (.count t)

private theorem nextPolicy_move {n : String} {loop : RetryLoop} {pc' : Pc D} {eff : Effect D}
    (h : nextPolicy g n loop.rest = (pc', eff)) : Move g reg s n (.retrying loop) pc' eff := by
  cases hr : loop.rest with
  | nil => rw [hr] at h; cases h; exact .giveUp loop
  | cons policy rest => rw [hr] at h; cases h; exact .nextRetry loop policy rest hr

private theorem afterDispatch_move {n : String} {retry : Option RetryLoop} {res : Except NodeFailure String}
    {pc' : Pc D} {eff : Effect D} (h : afterDispatch g s.exec n retry res = (pc', eff)) :
    Move g reg s n (.returned retry res) pc' eff := by
  cases res with
  | error e => cases retry <;> cases h <;> exact .broken _ _ _
  | ok o =>
    cases retry with
    | none =>
      simp only [afterDispatch] at h
      split at h
      · rename_i ho
        subst ho
        split at h
        · cases h; exact .broken _ _ _
        · rename_i ht
          cases hp : retryPolicies g n with
          | nil => rw [hp] at h; cases h; exact .settle _ _ fun _ => ht
          | cons policy rest => rw [hp] at h; cases h; exact .firstRetry policy rest hp
      · rename_i ho
        cases h; exact .settle _ _ fun he => absurd he ho
    | some loop =>
      simp only [afterDispatch] at h
      split at h
      · rename_i ho
        subst ho
        cases h; exact .again loop
      · rename_i ho
        cases h; exact .settle _ _ fun he => absurd he ho

private theorem localStep_move {n : String} {pc pc' : Pc D} {c : Choice D} {eff : Effect D}
    (h : localStep g reg s n pc c = some (pc', eff)) : Move g reg s n pc pc' eff := by
  rw [localStep.eq_def] at h
  split at h
  · split at h
    · rename_i hc; cases h; exact .leave hc
    · split at h
      · rename_i hn; cases h; exact .begin hn
      · rename_i hn; cases h; exact .absent hn
  · split at h <;> cases h
    · exact .reject _ _
    · rename_i services hp
      exact .register _ _ hp
  · cases h; exact .ret _ _ _ _
  · cases h; exact .store _ _ _
  · exact afterDispatch_move (Option.some.inj h)
  · split at h
    · rename_i ha; cases h; exact .attempt _ ha
    · exact nextPolicy_move (Option.some.inj h)
  · split at h
    · exact nextPolicy_move (Option.some.inj h)
    · cases h
  · cases h; exact .fail _
  · cases h; exact .cancel
  · cases h; exact .follow _
  · split at h
    · rename_i hr; cases h; exact .untracked _ _ _ hr
    · rename_i ref hr
      cases h
      split
      · rename_i h0
        have h1 : ref = 1 := by omega
        exact .lastRelease _ _ _ (h1 ▸ hr)
      · rename_i h0; exact .release _ _ _ ref hr h0
  · cases h; exact .evict _ _ _
  · cases h; exact .done _
  · dsimp only at h
    split at h
    · rename_i hs; cases h; exact .outOfRange _ _ _ hs
    · rename_i seen hs
      cases h
      cases seen with
      | true => exact .repeated _ _ _ hs
      | false => exact .arrive _ _ _ hs
  · cases h; exact .count _ _ _
  · cases h

/-- What a step of a run does. -/
inductive StepCases (g : CompiledGraph) (reg : Registries D) (s : RunState D) : RunState D → Prop
  | startEntry (t : String) (ts : List String) (h : s.toStart = t :: ts) :
      StepCases g reg s (RunState.dispatch { s with toStart := ts } t)
  | move (i : Nat) (n : String) (pc pc' : Pc D) (eff : Effect D) (hi : s.goroutines[i]? = some (n, pc))
      (hm : Move g reg s n pc pc' eff) :
      StepCases g reg s (RunState.perform g { s with goroutines := s.goroutines.set i (n, pc') } n eff)
  | ctxEnd (e : CtxError) (h : s.ctxErr = none) :
      StepCases g reg s { s with ctxErr := some e, log := .ctxEnded e :: s.log }
  | finish (inherited : Option Int) (h : s.waited) :
    StepCases g reg s { s with result := some (runResult g s inherited) }

theorem step_cases {a : Action D} (h : step g reg s a = some s') :
    s.result = none ∧ s.panicked = false ∧ StepCases g reg s s' := by
  rw [step.eq_def] at h
  split at h
  · cases h
  · rename_i hr
    rw [not_or, not_not, Bool.not_eq_true] at hr
    refine ⟨hr.1, hr.2, ?_⟩
    cases a with
    | startEntry =>
      dsimp only at h
      split at h <;> cases h
      rename_i t ts ht
      exact .startEntry t ts ht
    | advance i c =>
      dsimp only at h
      split at h
      · cases h
      · rename_i n pc hi
        split at h <;> cases h
        rename_i pc' eff hl
        exact .move i n pc pc' eff hi (localStep_move hl)
    | ctxEnd e =>
      dsimp only at h
      split at h <;> cases h
      rename_i hc
      exact .ctxEnd e hc
    | finish inherited =>
      dsimp only at h
      split at h <;> cases h
      rename_i hw
      exact .finish inherited hw

end Noda.Engine
