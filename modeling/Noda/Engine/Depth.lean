import Noda.Lib.Pool
import Noda.Lib.Transition
import Mathlib.Algebra.Ring.Int.Defs
import Mathlib.Algebra.Ring.Nat

/-!
# The recursion depth

Sub-workflow calls of `workflow.run` and `control.loop` in all contexts of a run, in any interleaving.  The counter of a
context is shared by the calls of all its nodes, and a sub-workflow starts with the value that the counter of its parent
has at that moment.  Every access to a counter is one step.

The counter is the number of calls in progress in the context, and of those that were in progress in the contexts above
when the chain went on to the next one (`DepthOk.balanced`).  That is at least the length of the chain, but more where
calls run in parallel: a call may be rejected far below the limit (`depth_not_exact`).  As long as the calls beside the
chain do not fill it, the limit is on the chain (`depth_exact`).
-/

namespace Noda.Engine.Depth

open Transition

/-- The value of an `int32`. -/
def int32 (n : Int) : Int := (n + 2 ^ 31) % 2 ^ 32 - 2 ^ 31

/-- The part of an `ExecutionContextImpl` that counts calls.  The length of the chain of calls that leads to it, and the
number of calls that it has inherited from its parent, are for the proofs. -/
structure Context where
  depth : Int
  maxDepth : Int
  finished : Bool
  chain : Nat
  inherited : Nat
  deriving DecidableEq, Repr

/-- The nodes that call sub-workflows. -/
inductive Kind where
  | run
  | loop
  deriving DecidableEq, Repr

/-- Where a call is: before `CheckAndIncrementDepth`, between the two additions of a rejected one, counted with no
sub-workflow running (and whether one has run), in its sub-workflow, or at its end. -/
inductive Phase where
  | entering
  | rejecting
  | counted (ran : Bool)
  | running (child : Nat)
  | returned (rejected : Bool)
  deriving DecidableEq, Repr

/-- A call of `Execute` in a context.  For the proofs, it remembers the counter before and after it, each with the
number of calls then in progress in the context. -/
structure Call where
  ctx : Nat
  kind : Kind
  phase : Phase
  entry : Option (Int × Nat)
  exit : Option (Int × Nat)
  deriving DecidableEq, Repr

structure State where
  contexts : List Context
  calls : List Call
  deriving DecidableEq, Repr

/-- `NewExecutionContext`, as the trigger of a workflow calls it. -/
def newExecutionContext : Context := ⟨0, 64, false, 0, 0⟩

def initial : State := ⟨[newExecutionContext], []⟩

/-- The call is counted. -/
def Phase.isCounted : Phase → Bool
  | .rejecting | .counted _ | .running _ => true
  | .entering | .returned _ => false

def Phase.isReturned : Phase → Bool
  | .returned _ => true
  | _ => false

/-- Whether the call was rejected, once that is decided. -/
def Phase.rejected : Phase → Option Bool
  | .entering => none
  | .rejecting => some true
  | .counted _ | .running _ => some false
  | .returned r => some r

/-- The calls of the context that are counted. -/
def State.inProgress (s : State) (c : Nat) : Nat := s.calls.countP fun k => k.ctx = c ∧ k.phase.isCounted

inductive Move where
  | enter
  | takeBack
  | runSubWorkflow
  | resume
  | leave
  deriving DecidableEq, Repr

inductive Action where
  | call (c : Nat) (kind : Kind)
  | move (i : Nat) (m : Move)
  | finish (c : Nat)
  deriving DecidableEq, Repr

/-- The context of a sub-workflow. -/
def childCtx (s : State) (c : Nat) (parent : Context) : Context where
  depth := parent.depth
  maxDepth := parent.maxDepth
  finished := false
  chain := parent.chain + 1
  inherited := parent.inherited + s.inProgress c

/-- The second addition, of a rejected call or of `DecrementDepth`. -/
def decrementDepth (s : State) (k : Call) (ctx : Context) (rejected : Bool) : Context × Call :=
  let depth := int32 (ctx.depth - 1)
  ({ ctx with depth }, { k with phase := .returned rejected, exit := some (depth, s.inProgress k.ctx - 1) })

/-- A step of a call: what becomes of its context and of itself, and the context that it makes. -/
def move (s : State) (k : Call) (ctx : Context) : Move → Option (Context × Call × List Context)
  | .enter =>
    match k.phase with
    | .entering =>
      let newDepth := int32 (ctx.depth + 1)
      let phase := if newDepth > ctx.maxDepth then .rejecting else .counted false
      some ({ ctx with depth := newDepth }, { k with phase, entry := some (ctx.depth, s.inProgress k.ctx) }, [])
    | _ => none
  | .takeBack =>
    match k.phase with
    | .rejecting => let r := decrementDepth s k ctx true; some (r.1, r.2, [])
    | _ => none
  | .runSubWorkflow =>
    match k.phase with
    | .counted ran =>
      -- only a loop runs its sub-workflow again
      if ran ∧ k.kind = .run then none
      else some (ctx, { k with phase := .running s.contexts.length }, [childCtx s k.ctx ctx])
    | _ => none
  | .resume =>
    match k.phase with
    | .running child =>
      if (s.contexts[child]?).any (·.finished) then some (ctx, { k with phase := .counted true }, []) else none
    | _ => none
  | .leave =>
    match k.phase with
    | .counted _ => let r := decrementDepth s k ctx false; some (r.1, r.2, [])
    | _ => none

/-- One step of a run and all its sub-workflows.  A context finishes when all calls of its nodes have returned. -/
def step (s : State) : Action → Option State
  | .call c kind =>
    if (s.contexts[c]?).any (!·.finished) then some { s with calls := s.calls ++ [⟨c, kind, .entering, none, none⟩] }
    else none
  | .move i m =>
    match s.calls[i]? with
    | none => none
    | some k =>
      match s.contexts[k.ctx]? with
      | none => none
      | some ctx => (move s k ctx m).map fun r => ⟨s.contexts.set k.ctx r.1 ++ r.2.2, s.calls.set i r.2.1⟩
  | .finish c =>
    match s.contexts[c]? with
    | none => none
    | some ctx =>
      if s.calls.all fun k => k.ctx ≠ c ∨ k.phase.isReturned then
        some { s with contexts := s.contexts.set c { ctx with finished := true } }
      else none

/-! ### What the counter counts -/

/-- Calls are rejected by the length of their chain, and leave no trace in the counters. -/
structure DepthOk (s : State) : Prop where
  rejected_iff : ∀ k ∈ s.calls, ∀ ctx, s.contexts[k.ctx]? = some ctx → ∀ r, k.phase.rejected = some r →
    (r = true ↔ 64 ≤ ctx.chain)
  /-- the counter is back to its value before the call, if as many other calls are in progress as before -/
  restored : ∀ k ∈ s.calls, ∀ r, k.phase = .returned r →
    ∃ v n v' n', k.entry = some (v, n) ∧ k.exit = some (v', n') ∧ (n' = n → v' = v)
  /-- a call that has returned is not counted any more -/
  balanced : ∀ (c : Nat) ctx, s.contexts[c]? = some ctx → ctx.depth = int32 (ctx.inherited + s.inProgress c)

/-- What is known of a call in its context. -/
structure CallOk (k : Call) (ctx : Context) : Prop where
  decided : ∀ r, k.phase.rejected = some r → (r = true ↔ 64 ≤ ctx.chain)
  entry : k.phase ≠ .entering → ∃ n : Nat, k.entry = some (int32 (ctx.inherited + n), n)
  exit : ∀ r, k.phase = .returned r → ∃ n : Nat, k.exit = some (int32 (ctx.inherited + n), n)

structure Inv (s : State) : Prop where
  balanced : ∀ (c : Nat) ctx, s.contexts[c]? = some ctx → ctx.depth = int32 (ctx.inherited + s.inProgress c)
  chain : ∀ ctx ∈ s.contexts, ctx.maxDepth = 64 ∧ ctx.chain ≤ ctx.inherited
  calls : ∀ k ∈ s.calls, ∃ ctx, s.contexts[k.ctx]? = some ctx ∧ CallOk k ctx

theorem inv_initial : Inv initial where
  balanced := by
    intro c ctx h
    obtain rfl := List.mem_singleton.1 (List.mem_of_getElem? h)
    simp [newExecutionContext, int32, State.inProgress, initial]
  chain := by
    intro ctx h
    obtain rfl := List.mem_singleton.1 h
    exact ⟨rfl, Nat.le_refl 0⟩
  calls := fun _ h => nomatch h

private theorem depthOk_of_inv {s : State} (h : Inv s) : DepthOk s where
  rejected_iff := by
    intro k hk ctx hctx r hr
    obtain ⟨ctx', hctx', hok⟩ := h.calls k hk
    obtain rfl : ctx' = ctx := Option.some.inj (hctx'.symm.trans hctx)
    exact hok.decided r hr
  restored := by
    intro k hk r hr
    obtain ⟨ctx, -, hok⟩ := h.calls k hk
    obtain ⟨n, hn⟩ := hok.entry (by rw [hr]; exact Phase.noConfusion)
    obtain ⟨n', hn'⟩ := hok.exit r hr
    refine ⟨_, n, _, n', hn, hn', ?_⟩
    rintro rfl
    rfl
  balanced := h.balanced

private theorem int32_succ (n : Int) : int32 (int32 n + 1) = int32 (n + 1) := by
  unfold int32
  omega

private theorem int32_pred (n : Int) : int32 (int32 n - 1) = int32 (n - 1) := by
  unfold int32
  omega

private theorem int32_of_lt {n : Int} (h₀ : 0 ≤ n) (h : n < 2 ^ 31) : int32 n = n := by
  unfold int32
  omega

variable {s s' : State} {i : Nat} {k k' : Call} {ctx ctx' : Context}

/-- The call, if it is counted in the context. -/
def Call.share (k : Call) (c : Nat) : Nat := if k.ctx = c ∧ k.phase.isCounted then 1 else 0

/-- A call that moves on changes the count by its own share. -/
private theorem inProgress_set (contexts : List Context) (hi : s.calls[i]? = some k) (k' : Call) (c : Nat) :
    (State.mk contexts (s.calls.set i k')).inProgress c + k.share c = s.inProgress c + k'.share c := by
  obtain ⟨hlt, rfl⟩ := List.getElem?_eq_some_iff.1 hi
  unfold State.inProgress Call.share
  rw [List.countP_set hlt]
  have hpos : s.calls[i].ctx = c ∧ s.calls[i].phase.isCounted →
      0 < s.calls.countP fun k => k.ctx = c ∧ k.phase.isCounted := by
    intro h
    exact List.countP_pos_iff.2 ⟨_, List.getElem_mem hlt, by simpa using h⟩
  simp only [decide_eq_true_eq]
  split_ifs with h₁ h₂ h₂
  · have := hpos h₁
    omega
  · have := hpos h₁
    omega
  · omega
  · omega

private theorem inProgress_eq_zero (h : Inv s) {c : Nat} (hc : s.contexts.length ≤ c) : s.inProgress c = 0 := by
  unfold State.inProgress
  rw [List.countP_eq_zero]
  intro k hk hcount
  obtain ⟨ctx, hctx, -⟩ := h.calls k hk
  obtain ⟨hlt, -⟩ := List.getElem?_eq_some_iff.1 hctx
  have hkc : k.ctx = c := by
    have := of_decide_eq_true hcount
    exact this.1
  omega

theorem CallOk.congr (h : CallOk k ctx) (hchain : ctx'.chain = ctx.chain)
    (hinherited : ctx'.inherited = ctx.inherited) :
    CallOk k ctx' where
  decided := by rw [hchain]; exact h.decided
  entry := by rw [hinherited]; exact h.entry
  exit := by rw [hinherited]; exact h.exit

/-- A call moves on, its context gets a new value of its counter, and a context may be added. -/
private theorem Inv.move (h : Inv s) (hi : s.calls[i]? = some k) (hctx : s.contexts[k.ctx]? = some ctx)
    (depth : Int) {children : List Context} (hk : k'.ctx = k.ctx)
    (hdepth : depth = int32 (ctx.inherited + s.inProgress k.ctx + k'.share k.ctx - k.share k.ctx))
    (hchildren : ∀ child ∈ children, child.maxDepth = 64 ∧ child.chain ≤ child.inherited ∧
      child.depth = int32 child.inherited)
    (hok : CallOk k' ctx) : Inv ⟨s.contexts.set k.ctx { ctx with depth } ++ children, s.calls.set i k'⟩ := by
  -- the contexts that were there keep their chain and their inheritance
  have hkeep : ∀ (c : Nat) old, s.contexts[c]? = some old →
      ∃ new, (s.contexts.set k.ctx { ctx with depth } ++ children)[c]? = some new ∧ new.chain = old.chain ∧
        new.inherited = old.inherited := by
    intro c old hold
    obtain ⟨hlt, -⟩ := List.getElem?_eq_some_iff.1 hold
    rw [List.getElem?_append_left (by simpa using hlt), List.getElem?_set]
    split_ifs with hc hlt'
    · subst hc
      obtain rfl : ctx = old := Option.some.inj (hctx.symm.trans hold)
      exact ⟨_, rfl, rfl, rfl⟩
    · exact absurd (hc ▸ hlt) hlt'
    · exact ⟨old, hold, rfl, rfl⟩
  refine ⟨fun c new hnew => ?_, fun new hnew => ?_, fun k₂ hk₂ => ?_⟩
  · have hcount := inProgress_set (s.contexts.set k.ctx { ctx with depth } ++ children) hi k' c
    by_cases hlt : c < s.contexts.length
    · rw [List.getElem?_append_left (by simpa using hlt)] at hnew
      rcases Pool.getElem?_set_some hnew with ⟨rfl, rfl⟩ | ⟨hne, hold⟩
      · refine hdepth.trans (congrArg int32 ?_)
        dsimp only
        omega
      · -- the call has no share in the other contexts
        have hzero : k.share c = 0 := if_neg fun hc => hne hc.1.symm
        have hzero' : k'.share c = 0 := if_neg fun hc => hne (hc.1.symm.trans hk)
        rw [hzero, hzero', Nat.add_zero, Nat.add_zero] at hcount
        rw [hcount]
        exact h.balanced c new hold
    · have hzero := inProgress_eq_zero h (Nat.not_lt.1 hlt)
      have hne : k.ctx ≠ c := by
        obtain ⟨hkc, -⟩ := List.getElem?_eq_some_iff.1 hctx
        omega
      have hshare : k'.share c = 0 := if_neg fun hc => hne (hk.symm.trans hc.1)
      have hnone : (State.mk (s.contexts.set k.ctx { ctx with depth } ++ children)
          (s.calls.set i k')).inProgress c = 0 := by
        omega
      rw [List.getElem?_append_right (by simpa using hlt)] at hnew
      rw [hnone, (hchildren new (List.mem_of_getElem? hnew)).2.2]
      simp
  · rcases List.mem_append.1 hnew with hold | hchild
    · rcases List.mem_or_eq_of_mem_set hold with hold | rfl
      · exact h.chain new hold
      · exact h.chain ctx (List.mem_of_getElem? hctx)
    · exact ⟨(hchildren new hchild).1, (hchildren new hchild).2.1⟩
  · rcases List.mem_or_eq_of_mem_set hk₂ with hold | rfl
    · obtain ⟨old, hget, hcall⟩ := h.calls k₂ hold
      obtain ⟨new, hnew, hchain, hinherited⟩ := hkeep k₂.ctx old hget
      exact ⟨new, hnew, hcall.congr hchain hinherited⟩
    · obtain ⟨new, hnew, hchain, hinherited⟩ := hkeep k.ctx ctx hctx
      exact ⟨new, by rw [hk]; exact hnew, hok.congr hchain hinherited⟩

/-- The calls in progress in the context, and those that it has inherited, leave room for another one, or the chain is
full itself; the counter does not overflow. -/
def room (s : State) : Action → Bool
  | .move i .enter =>
    (s.calls[i]?).all fun k =>
      (s.contexts[k.ctx]?).all fun ctx =>
        let n := ctx.inherited + s.inProgress k.ctx
        n < 64 ∨ 64 ≤ ctx.chain ∧ n < 2 ^ 31 - 1
  | _ => true

/-- A call that is admitted is counted; one that is not is, too, until it takes that back. -/
private theorem inv_enter (h : Inv s) (hi : s.calls[i]? = some k) (hctx : s.contexts[k.ctx]? = some ctx)
    (hphase : k.phase = .entering) (hroom : room s (.move i .enter) = true) :
    Inv ⟨s.contexts.set k.ctx { ctx with depth := int32 (ctx.depth + 1) } ++ [], s.calls.set i { k with
      phase := if int32 (ctx.depth + 1) > ctx.maxDepth then .rejecting else .counted false
      entry := some (ctx.depth, s.inProgress k.ctx) }⟩ := by
  have hbalanced := h.balanced _ _ hctx
  obtain ⟨hmax, hchain⟩ := h.chain ctx (List.mem_of_getElem? hctx)
  have hshare : k.share k.ctx = 0 := by simp [Call.share, hphase, Phase.isCounted]
  have hnew : int32 (ctx.depth + 1) = int32 (ctx.inherited + s.inProgress k.ctx + 1) := by rw [hbalanced, int32_succ]
  -- the limit on the counter is the limit on the chain
  have hlimit : int32 (ctx.depth + 1) > ctx.maxDepth ↔ 64 ≤ ctx.chain := by
    have hroom' : ctx.inherited + s.inProgress k.ctx < 64 ∨
        64 ≤ ctx.chain ∧ ctx.inherited + s.inProgress k.ctx < 2 ^ 31 - 1 := by
      simpa [room, hi, hctx] using hroom
    rw [hnew, hmax, int32_of_lt (by omega) (by omega)]
    omega
  refine h.move hi hctx _ rfl ?_ (fun _ hc => nomatch hc) ⟨?_, ?_, ?_⟩
  · rw [hnew, hshare]
    congr 1
    split_ifs
    · simp [Call.share, Phase.isCounted]
    · simp [Call.share, Phase.isCounted]
  · intro r hr
    rw [← hlimit]
    split_ifs at hr with hgt
    · cases hr
      simp [hgt]
    · cases hr
      simp [hgt]
  · intro _
    exact ⟨s.inProgress k.ctx, by rw [hbalanced]⟩
  · intro r hr
    split_ifs at hr

private theorem inv_decrementDepth (h : Inv s) (hi : s.calls[i]? = some k) (hctx : s.contexts[k.ctx]? = some ctx)
    {rejected : Bool} (hcounted : k.phase.isCounted = true) (hrejected : k.phase.rejected = some rejected) :
    Inv ⟨s.contexts.set k.ctx (decrementDepth s k ctx rejected).1 ++ [],
      s.calls.set i (decrementDepth s k ctx rejected).2⟩ := by
  have hbalanced := h.balanced _ _ hctx
  have hshare : k.share k.ctx = 1 := by simp [Call.share, hcounted]
  have hnew : int32 (ctx.depth - 1) = int32 (ctx.inherited + s.inProgress k.ctx - 1) := by rw [hbalanced, int32_pred]
  obtain ⟨ctx', hctx', hok⟩ := h.calls k (List.mem_of_getElem? hi)
  obtain rfl : ctx' = ctx := Option.some.inj (hctx'.symm.trans hctx)
  have hpos : 0 < s.inProgress k.ctx :=
    List.countP_pos_iff.2 ⟨k, List.mem_of_getElem? hi, by simp [hcounted]⟩
  refine h.move hi hctx _ rfl ?_ (fun _ hc => nomatch hc) ⟨?_, ?_, ?_⟩
  · have hzero : (decrementDepth s k ctx' rejected).2.share k.ctx = 0 := by
      simp [decrementDepth, Call.share, Phase.isCounted]
    rw [hnew, hshare, hzero]
    simp
  · intro r hr
    exact hok.decided r (hrejected.trans hr)
  · intro _
    refine hok.entry ?_
    rintro he
    rw [he] at hcounted
    cases hcounted
  · intro r _
    refine ⟨s.inProgress k.ctx - 1, ?_⟩
    simp only [decrementDepth]
    rw [hnew, Int.natCast_sub hpos, Int.add_sub_assoc]
    rfl

private theorem inv_runSubWorkflow (h : Inv s) (hi : s.calls[i]? = some k) (hctx : s.contexts[k.ctx]? = some ctx)
    {ran : Bool} (hphase : k.phase = .counted ran) :
    Inv ⟨s.contexts.set k.ctx ctx ++ [childCtx s k.ctx ctx], s.calls.set i { k with
      phase := .running s.contexts.length }⟩ := by
  have hbalanced := h.balanced _ _ hctx
  obtain ⟨hmax, hchain⟩ := h.chain ctx (List.mem_of_getElem? hctx)
  have hpos : 0 < s.inProgress k.ctx :=
    List.countP_pos_iff.2 ⟨k, List.mem_of_getElem? hi, by simp [hphase, Phase.isCounted]⟩
  obtain ⟨ctx', hctx', hok⟩ := h.calls k (List.mem_of_getElem? hi)
  obtain rfl : ctx' = ctx := Option.some.inj (hctx'.symm.trans hctx)
  refine h.move hi hctx ctx'.depth rfl ?_ ?_ ⟨?_, ?_, fun _ hr => nomatch hr⟩
  · rw [hbalanced]
    simp [Call.share, hphase, Phase.isCounted]
  · -- the call that makes the child is itself in progress, so the child inherits at least its chain
    intro child hchild
    obtain rfl := List.mem_singleton.1 hchild
    refine ⟨hmax, ?_, ?_⟩
    · simp only [childCtx]
      omega
    · simp only [childCtx]
      rw [hbalanced, Int.natCast_add]
  · intro r hr
    exact hok.decided r (by rw [hphase]; exact hr)
  · intro _
    exact hok.entry (by rw [hphase]; exact Phase.noConfusion)

private theorem inv_resume (h : Inv s) (hi : s.calls[i]? = some k) (hctx : s.contexts[k.ctx]? = some ctx)
    {child : Nat} (hphase : k.phase = .running child) :
    Inv ⟨s.contexts.set k.ctx ctx ++ [], s.calls.set i { k with phase := .counted true }⟩ := by
  obtain ⟨ctx', hctx', hok⟩ := h.calls k (List.mem_of_getElem? hi)
  obtain rfl : ctx' = ctx := Option.some.inj (hctx'.symm.trans hctx)
  refine h.move hi hctx ctx'.depth rfl ?_ (fun _ hc => nomatch hc) ⟨?_, ?_, fun _ hr => nomatch hr⟩
  · rw [h.balanced _ _ hctx]
    simp [Call.share, hphase, Phase.isCounted]
  · intro r hr
    exact hok.decided r (by rw [hphase]; exact hr)
  · intro _
    exact hok.entry (by rw [hphase]; exact Phase.noConfusion)

private theorem inv_move (h : Inv s) (hi : s.calls[i]? = some k) (hctx : s.contexts[k.ctx]? = some ctx) {m : Move}
    (hroom : room s (.move i m) = true) {r : Context × Call × List Context} (hm : move s k ctx m = some r) :
    Inv ⟨s.contexts.set k.ctx r.1 ++ r.2.2, s.calls.set i r.2.1⟩ := by
  cases m with
  | enter =>
    cases hphase : k.phase with
    | entering =>
      simp only [move, hphase] at hm
      cases hm
      exact inv_enter h hi hctx hphase hroom
    | rejecting | counted | running | returned => simp [move, hphase] at hm
  | takeBack =>
    cases hphase : k.phase with
    | rejecting =>
      simp only [move, hphase] at hm
      cases hm
      exact inv_decrementDepth h hi hctx (by rw [hphase]; rfl) (by rw [hphase]; rfl)
    | entering | counted | running | returned => simp [move, hphase] at hm
  | runSubWorkflow =>
    cases hphase : k.phase with
    | counted ran =>
      simp only [move, hphase] at hm
      split_ifs at hm with hran
      cases hm
      exact inv_runSubWorkflow h hi hctx hphase
    | entering | rejecting | running | returned => simp [move, hphase] at hm
  | resume =>
    cases hphase : k.phase with
    | running child =>
      simp only [move, hphase] at hm
      split_ifs at hm with hfinished
      cases hm
      exact inv_resume h hi hctx hphase
    | entering | rejecting | counted | returned => simp [move, hphase] at hm
  | leave =>
    cases hphase : k.phase with
    | counted ran =>
      simp only [move, hphase] at hm
      cases hm
      exact inv_decrementDepth h hi hctx (by rw [hphase]; rfl) (by rw [hphase]; rfl)
    | entering | rejecting | running | returned => simp [move, hphase] at hm

private theorem inv_call (h : Inv s) {c : Nat} {kind : Kind} (hctx : s.contexts[c]? = some ctx) :
    Inv { s with calls := s.calls ++ [⟨c, kind, .entering, none, none⟩] } where
  balanced := by
    intro c' ctx' hctx'
    rw [h.balanced c' ctx' hctx']
    simp [State.inProgress, Phase.isCounted]
  chain := h.chain
  calls := by
    intro k hk
    rcases List.mem_append.1 hk with hk | hk
    · exact h.calls k hk
    · obtain rfl := List.mem_singleton.1 hk
      exact ⟨ctx, hctx, ⟨(fun _ hr => nomatch hr), (fun he => absurd rfl he), (fun _ hr => nomatch hr)⟩⟩

private theorem inv_finish (h : Inv s) {c : Nat} (hctx : s.contexts[c]? = some ctx) :
    Inv { s with contexts := s.contexts.set c { ctx with finished := true } } where
  balanced := by
    intro c' ctx' hctx'
    rcases Pool.getElem?_set_some hctx' with ⟨rfl, rfl⟩ | ⟨-, hold⟩
    · exact h.balanced _ ctx hctx
    · exact h.balanced c' ctx' hold
  chain := by
    intro ctx' hctx'
    rcases List.mem_or_eq_of_mem_set hctx' with hold | rfl
    · exact h.chain ctx' hold
    · exact h.chain ctx (List.mem_of_getElem? hctx)
  calls := by
    intro k hk
    obtain ⟨old, hold, hok⟩ := h.calls k hk
    by_cases hc : c = k.ctx
    · subst hc
      obtain rfl : ctx = old := Option.some.inj (hctx.symm.trans hold)
      obtain ⟨hlt, -⟩ := List.getElem?_eq_some_iff.1 hctx
      exact ⟨_, List.getElem?_set_self hlt, hok.congr rfl rfl⟩
    · exact ⟨old, by rw [List.getElem?_set_ne hc]; exact hold, hok⟩

theorem inv_step {a : Action} (h : Inv s) (hroom : room s a = true) (hstep : step s a = some s') : Inv s' := by
  cases a with
  | call c kind =>
    simp only [step] at hstep
    split_ifs at hstep with hopen
    cases hstep
    obtain ⟨ctx, hctx, -⟩ := (Option.any_eq_true _ _).1 hopen
    exact inv_call h hctx
  | move i m =>
    simp only [step] at hstep
    cases hi : s.calls[i]? with
    | none => simp [hi] at hstep
    | some k =>
      simp only [hi] at hstep
      cases hctx : s.contexts[k.ctx]? with
      | none => simp [hctx] at hstep
      | some ctx =>
        simp only [hctx] at hstep
        obtain ⟨r, hm, rfl⟩ := Option.map_eq_some_iff.1 hstep
        exact inv_move h hi hctx hroom hm
  | finish c =>
    simp only [step] at hstep
    cases hctx : s.contexts[c]? with
    | none => simp [hctx] at hstep
    | some ctx =>
      simp only [hctx] at hstep
      split_ifs at hstep
      cases hstep
      exact inv_finish h hctx

/-- As long as the calls beside a chain leave room on it, calls are rejected by the length of their chain. -/
theorem depth_exact {as : List Action} (hm : Meets step (fun s a => room s a = true) initial as)
    (h : run step initial as = some s) : DepthOk s := by
  have hinv : Inv s := run_invariant_of_meets (fun _ _ _ h hroom hstep => inv_step h hroom hstep) inv_initial hm h
  exact depthOk_of_inv hinv

def nestedCalls : List Action :=
  [.call 0 .loop, .call 0 .run, .move 0 .enter, .move 1 .enter, .move 0 .runSubWorkflow, .call 1 .run, .move 2 .enter,
    .move 1 .leave, .move 2 .leave, .finish 1, .move 0 .resume, .move 0 .runSubWorkflow, .finish 2, .move 0 .resume,
    .move 0 .leave]

theorem depth_exact_nested : ∃ s, run step initial nestedCalls = some s ∧ DepthOk s := by
  obtain ⟨s, hs, -⟩ := exists_run step initial nestedCalls (p := fun _ => true) (by decide +kernel)
  exact ⟨s, hs, depth_exact (by decide +kernel) hs⟩

/-- As many calls as the limit, and one more, in parallel nodes of one workflow. -/
def parallelCalls : List Action :=
  List.replicate 65 (.call 0 .run) ++ (List.range 65).map fun i => .move i .enter

/-- The last of 65 parallel calls is rejected, although no call encloses it. -/
theorem depth_not_exact : ¬∀ as s, run step initial as = some s → DepthOk s := by
  intro h
  obtain ⟨s, hs, hlast⟩ := exists_run step initial parallelCalls
    (p := fun s => decide (∃ k ∈ s.calls, k.phase = .rejecting ∧ s.contexts[k.ctx]?.map (·.chain) = some 0))
    (by decide +kernel)
  obtain ⟨k, hk, hphase, hchain⟩ := of_decide_eq_true hlast
  obtain ⟨ctx, hctx, hzero⟩ := Option.map_eq_some_iff.1 hchain
  have hrejected := (h _ s hs).rejected_iff k hk ctx hctx true (by rw [hphase]; rfl)
  have := hrejected.1 rfl
  omega

end Noda.Engine.Depth
