import Noda.Lib.Pool
import Noda.Lib.Transition

/-!
# The casbin middleware

The handler that `newCasbinMiddleware` returns, with any number of requests side by side.  The call of `Enforce`, the
assignment of its results and each test on them are one step each, and `Enforce` may return anything.

`allowed` is a variable of the request, but `err` is the one of the constructor, which all requests share: a request may
test the error of another one (`casbin_not_isolated`).  In every run in which no request assigns a different error
between the assignment and the test of another one, the outcome of each request is its own (`casbin_isolated`).
-/

namespace Noda.Server.Casbin

open Transition

/-- What the handler reads of a request: the user in the JWT locals, the value of the tenant parameter in the path and
in the query, the path and the method. -/
structure Request where
  userID : Option String
  param : String
  query : String
  path : String
  method : String
  deriving DecidableEq, Repr

/-- What becomes of a request. -/
inductive Outcome where
  | forbidden (message : String)
  | authorizationError
  | next
  deriving DecidableEq, Repr

/-- `extractSubject`. -/
def extractSubject (r : Request) : String := r.userID.getD ""

def tenant (r : Request) : String := if r.param = "" then r.query else r.param

/-- What the handler does before it calls `Enforce`: it answers, or it has the arguments of the call. -/
def prepare (tenantParam : String) (r : Request) : Outcome ⊕ List String :=
  if extractSubject r = "" then .inl (.forbidden "access denied")
  else if tenantParam ≠ "" then
    if tenant r = "" then .inl (.forbidden "missing required tenant parameter")
    else .inr [extractSubject r, tenant r, r.path, r.method]
  else .inr [extractSubject r, r.path, r.method]

/-- Where a request is. -/
inductive Phase where
  | start
  | enforcing (args : List String)
  | enforced
  | assigned
  | tested
  | done (outcome : Outcome)
  deriving DecidableEq, Repr

/-- A request with its own variable `allowed`; `result` is a ghost: what its `Enforce` has returned. -/
structure Call (E : Type) where
  request : Request
  phase : Phase
  allowed : Bool
  result : Option (Bool × Option E)
  deriving DecidableEq, Repr

/-- `err` is the variable of the constructor. -/
structure State (E : Type) where
  err : Option E
  calls : List (Call E)

/-- A new request, or a step of one; `result` is what `Enforce` returns if the step calls it. -/
inductive Action (E : Type) where
  | arrive (r : Request)
  | step (i : Nat) (result : Bool × Option E)

variable {E : Type}

def initial : State E := ⟨none, []⟩

/-- One step of a request: the value of `err` after it, and the request after it. -/
def Call.step (tenantParam : String) (err : Option E) (c : Call E) (result : Bool × Option E) :
    Option (Option E × Call E) :=
  match c.phase with
  | .start =>
    match prepare tenantParam c.request with
    | .inl outcome => some (err, { c with phase := .done outcome })
    | .inr args => some (err, { c with phase := .enforcing args })
  | .enforcing _ => some (err, { c with phase := .enforced, result := some result })
  | .enforced => c.result.map fun result => (result.2, { c with phase := .assigned, allowed := result.1 })
  | .assigned =>
    if err.isSome then some (err, { c with phase := .done .authorizationError })
    else some (err, { c with phase := .tested })
  | .tested =>
    if c.allowed then some (err, { c with phase := .done .next })
    else some (err, { c with phase := .done (.forbidden "access denied") })
  | .done _ => none

def step (tenantParam : String) (s : State E) : Action E → Option (State E)
  | .arrive r => some { s with calls := s.calls ++ [⟨r, .start, false, none⟩] }
  | .step i result =>
    (s.calls[i]?).bind fun c => (c.step tenantParam s.err result).map fun (err, c') => ⟨err, s.calls.set i c'⟩

/-! ### Isolation -/

/-- The outcome that a request should have, by what its own `Enforce` has returned. -/
def decision (tenantParam : String) (r : Request) (result : Option (Bool × Option E)) : Option Outcome :=
  match prepare tenantParam r, result with
  | .inl outcome, _ => some outcome
  | .inr _, some (_, some _) => some .authorizationError
  | .inr _, some (true, none) => some .next
  | .inr _, some (false, none) => some (.forbidden "access denied")
  | .inr _, none => none

/-- What is expected of the outcomes. -/
structure Isolated (tenantParam : String) (s : State E) : Prop where
  own : ∀ c ∈ s.calls, ∀ outcome, c.phase = .done outcome → decision tenantParam c.request c.result = some outcome
  failed : ∀ c ∈ s.calls, ∀ outcome, c.phase = .done outcome →
    (outcome = .authorizationError ↔ ∃ allowed err, c.result = some (allowed, some err))
  next : ∀ c ∈ s.calls, ∀ outcome, c.phase = .done outcome → (outcome = .next ↔ c.result = some (true, none))

/-- The error that a request assigns is as much an error as that of every other request that has yet to test its own. -/
def agrees (s : State E) : Action E → Prop
  | .arrive _ => True
  | .step i _ => ∀ c ∈ s.calls[i]?, c.phase = .enforced → ∀ c' ∈ s.calls, c'.phase = .assigned →
      c.result.map (·.2.isSome) = c'.result.map (·.2.isSome)

instance decidableAgrees : ∀ (s : State E) (a : Action E), Decidable (agrees s a)
  | _, .arrive _ => .isTrue trivial
  | s, .step i _ => inferInstanceAs (Decidable (∀ c ∈ s.calls[i]?, c.phase = .enforced → ∀ c' ∈ s.calls,
      c'.phase = .assigned → c.result.map (·.2.isSome) = c'.result.map (·.2.isSome)))

/-- What is known of a request, by where it is. -/
def CallOk (tenantParam : String) (err : Option E) (c : Call E) : Prop :=
  match c.phase with
  | .start => c.result = none
  | .enforcing args => prepare tenantParam c.request = .inr args ∧ c.result = none
  | .enforced => ∃ args result, prepare tenantParam c.request = .inr args ∧ c.result = some result
  | .assigned => ∃ args result, prepare tenantParam c.request = .inr args ∧ c.result = some result ∧
      c.allowed = result.1 ∧ err.isSome = result.2.isSome
  | .tested => ∃ args, prepare tenantParam c.request = .inr args ∧ c.result = some (c.allowed, none)
  | .done outcome => decision tenantParam c.request c.result = some outcome ∧
      (c.result = none ∨ ∃ args, prepare tenantParam c.request = .inr args)

def Inv (tenantParam : String) (s : State E) : Prop := ∀ c ∈ s.calls, CallOk tenantParam s.err c

variable {tenantParam : String} {s s' : State E} {c c' : Call E} {err err' : Option E} {result : Bool × Option E}

private theorem prepare_inl {r : Request} {outcome : Outcome} (h : prepare tenantParam r = .inl outcome) :
    ∃ message, outcome = .forbidden message := by
  unfold prepare at h
  split_ifs at h
  · exact ⟨_, (Sum.inl.inj h).symm⟩
  · exact ⟨_, (Sum.inl.inj h).symm⟩

private theorem decision_cases {r : Request} {outcome : Outcome} {result : Option (Bool × Option E)}
    (h : decision tenantParam r result = some outcome) (hresult : result = none ∨
      ∃ args, prepare tenantParam r = .inr args) :
    (outcome = .authorizationError ↔ ∃ allowed err, result = some (allowed, some err)) ∧
      (outcome = .next ↔ result = some (true, none)) := by
  unfold decision at h
  cases hp : prepare tenantParam r with
  | inl o =>
    -- no call of `Enforce`
    obtain rfl := hresult.resolve_right (by simp [hp])
    obtain ⟨message, rfl⟩ := prepare_inl hp
    rw [hp] at h
    obtain rfl := Option.some.inj h
    simp
  | inr args =>
    rw [hp] at h
    cases result with
    | none => exact nomatch h
    | some result =>
      obtain ⟨allowed, err⟩ := result
      cases err with
      | some err =>
        obtain rfl := Option.some.inj h
        simp
      | none =>
        cases allowed with
        | true =>
          obtain rfl := Option.some.inj h
          simp
        | false =>
          obtain rfl := Option.some.inj h
          simp

theorem Inv.isolated (h : Inv tenantParam s) : Isolated tenantParam s := by
  have hok : ∀ c ∈ s.calls, ∀ outcome, c.phase = .done outcome →
      decision tenantParam c.request c.result = some outcome ∧
      (c.result = none ∨ ∃ args, prepare tenantParam c.request = .inr args) := by
    intro c hc outcome hphase
    have hcall := h c hc
    rw [CallOk, hphase] at hcall
    exact hcall
  refine ⟨fun c hc outcome hphase => (hok c hc outcome hphase).1, fun c hc outcome hphase => ?_,
    fun c hc outcome hphase => ?_⟩
  · obtain ⟨hdecision, hresult⟩ := hok c hc outcome hphase
    exact (decision_cases hdecision hresult).1
  · obtain ⟨hdecision, hresult⟩ := hok c hc outcome hphase
    exact (decision_cases hdecision hresult).2

/-- A request after a step of its own. -/
private theorem callOk_step (h : CallOk tenantParam err c) (hstep : c.step tenantParam err result = some (err', c')) :
    CallOk tenantParam err' c' := by
  unfold Call.step at hstep
  unfold CallOk at h
  cases hphase : c.phase with
  | start =>
    rw [hphase] at hstep h
    cases hp : prepare tenantParam c.request with
    | inl outcome =>
      simp only [hp, Option.some.injEq, Prod.mk.injEq] at hstep
      obtain ⟨rfl, rfl⟩ := hstep
      exact ⟨by simp [decision, hp], .inl h⟩
    | inr args =>
      simp only [hp, Option.some.injEq, Prod.mk.injEq] at hstep
      obtain ⟨rfl, rfl⟩ := hstep
      exact ⟨hp, h⟩
  | enforcing args =>
    rw [hphase] at hstep h
    simp only [Option.some.injEq, Prod.mk.injEq] at hstep
    obtain ⟨rfl, rfl⟩ := hstep
    exact ⟨args, result, h.1, rfl⟩
  | enforced =>
    rw [hphase] at hstep h
    obtain ⟨args, result, hp, hresult⟩ := h
    simp only [hresult, Option.map_some, Option.some.injEq, Prod.mk.injEq] at hstep
    obtain ⟨rfl, rfl⟩ := hstep
    exact ⟨args, result, hp, rfl, rfl, rfl⟩
  | assigned =>
    rw [hphase] at hstep h
    obtain ⟨args, ⟨allowed, own⟩, hp, hresult, hallowed, herr⟩ := h
    cases own with
    | some own =>
      simp only [herr, Option.isSome_some, if_true, Option.some.injEq, Prod.mk.injEq] at hstep
      obtain ⟨rfl, rfl⟩ := hstep
      exact ⟨by simp [decision, hp, hresult], .inr ⟨args, hp⟩⟩
    | none =>
      simp only [herr, Option.isSome_none, Bool.false_eq_true, if_false, Option.some.injEq, Prod.mk.injEq] at hstep
      obtain ⟨rfl, rfl⟩ := hstep
      refine ⟨args, hp, hresult.trans ?_⟩
      rw [show c.allowed = allowed from hallowed]
  | tested =>
    rw [hphase] at hstep h
    obtain ⟨args, hp, hresult⟩ := h
    cases hallowed : c.allowed with
    | true =>
      simp only [hallowed, if_true, Option.some.injEq, Prod.mk.injEq] at hstep
      obtain ⟨rfl, rfl⟩ := hstep
      exact ⟨by simp [decision, hp, hresult, hallowed], .inr ⟨args, hp⟩⟩
    | false =>
      simp only [hallowed, Bool.false_eq_true, if_false, Option.some.injEq, Prod.mk.injEq] at hstep
      obtain ⟨rfl, rfl⟩ := hstep
      exact ⟨by simp [decision, hp, hresult, hallowed], .inr ⟨args, hp⟩⟩
  | done outcome =>
    rw [hphase] at hstep
    exact nomatch hstep

/-- Only an assignment changes the shared error. -/
private theorem err_of_step (hstep : c.step tenantParam err result = some (err', c')) :
    err' = err ∨ c.phase = .enforced ∧ ∃ own, c.result = some own ∧ err' = own.2 := by
  unfold Call.step at hstep
  cases hphase : c.phase with
  | enforced =>
    rw [hphase] at hstep
    obtain ⟨own, hown, heq⟩ := Option.map_eq_some_iff.1 hstep
    exact .inr ⟨rfl, own, hown, (Prod.mk.inj heq).1.symm⟩
  | start =>
    rw [hphase] at hstep
    dsimp only at hstep
    split at hstep
    · exact .inl (Prod.mk.inj (Option.some.inj hstep)).1.symm
    · exact .inl (Prod.mk.inj (Option.some.inj hstep)).1.symm
  | enforcing args =>
    rw [hphase] at hstep
    exact .inl (Prod.mk.inj (Option.some.inj hstep)).1.symm
  | assigned =>
    rw [hphase] at hstep
    dsimp only at hstep
    split_ifs at hstep
    · exact .inl (Prod.mk.inj (Option.some.inj hstep)).1.symm
    · exact .inl (Prod.mk.inj (Option.some.inj hstep)).1.symm
  | tested =>
    rw [hphase] at hstep
    dsimp only at hstep
    split_ifs at hstep
    · exact .inl (Prod.mk.inj (Option.some.inj hstep)).1.symm
    · exact .inl (Prod.mk.inj (Option.some.inj hstep)).1.symm
  | done outcome =>
    rw [hphase] at hstep
    exact nomatch hstep

/-- A request after the assignment of another one. -/
private theorem callOk_assign (h : CallOk tenantParam err c)
    (hagree : c.phase = .assigned → err'.isSome = err.isSome) : CallOk tenantParam err' c := by
  unfold CallOk at h ⊢
  cases hphase : c.phase with
  | assigned =>
    rw [hphase] at h
    obtain ⟨args, own, hp, hresult, hallowed, herr⟩ := h
    exact ⟨args, own, hp, hresult, hallowed, (hagree hphase).trans herr⟩
  | start => rw [hphase] at h; exact h
  | enforcing args => rw [hphase] at h; exact h
  | enforced => rw [hphase] at h; exact h
  | tested => rw [hphase] at h; exact h
  | done outcome => rw [hphase] at h; exact h

theorem inv_step {a : Action E} (h : Inv tenantParam s) (hagree : agrees s a) (hstep : step tenantParam s a = some s') :
    Inv tenantParam s' := by
  cases a with
  | arrive r =>
    obtain rfl := Option.some.inj hstep
    intro c hc
    rcases List.mem_append.1 hc with hc | hc
    · exact h c hc
    · rw [List.mem_singleton.1 hc]
      rfl
  | step i result =>
    obtain ⟨c, hc, hmap⟩ := Option.bind_eq_some_iff.1 hstep
    obtain ⟨⟨err', c'⟩, hcall, rfl⟩ := Option.map_eq_some_iff.1 hmap
    have hmem := List.mem_of_getElem? hc
    intro d hd
    rcases List.mem_or_eq_of_mem_set hd with hmem' | rfl
    · refine callOk_assign (h d hmem') fun hassigned => ?_
      rcases err_of_step hcall with rfl | ⟨hphase, own, hown, rfl⟩
      · rfl
      · have hother := h d hmem'
        rw [CallOk, hassigned] at hother
        obtain ⟨args, other, -, hother, -, herr⟩ := hother
        have hsame := hagree c hc hphase d hmem' hassigned
        rw [hown, hother] at hsame
        exact (Option.some.inj hsame).trans herr.symm
    · exact callOk_step (h c hmem) hcall

/-- The outcome of every request is its own, in every run in which no request assigns a different error between the
assignment and the test of another one. -/
theorem casbin_isolated {as : List (Action E)} (hrun : run (step tenantParam) initial as = some s)
    (hagree : Meets (step tenantParam) agrees initial as) : Isolated tenantParam s := by
  have h₀ : Inv tenantParam (initial : State E) := fun c hc => absurd hc List.not_mem_nil
  exact (run_invariant_of_meets (fun _ _ _ hs hc hstep => inv_step hs hc hstep) h₀ hagree hrun).isolated

/-- Two requests, of an admin and of a guest. -/
def admin : Request := ⟨some "admin", "", "", "/api/users", "DELETE"⟩

def guest : Request := ⟨some "guest", "", "", "/api/users", "DELETE"⟩

/-- The requests one after the other. -/
def inTurn : List (Action String) :=
  [.arrive admin, .arrive guest, .step 0 (true, none), .step 0 (true, none), .step 0 (true, none), .step 0 (true, none),
    .step 0 (true, none), .step 1 (false, some "no model"), .step 1 (false, some "no model"),
    .step 1 (false, some "no model"), .step 1 (false, some "no model")]

theorem casbin_isolated_inTurn : ∃ s, run (step "") initial inTurn = some s ∧
    s.calls.map Call.phase = [.done .next, .done .authorizationError] ∧ Isolated "" s := by
  obtain ⟨s, hrun, hs⟩ := exists_run (step "") initial inTurn
    (p := fun s => decide (s.calls.map Call.phase = [.done .next, .done .authorizationError])) (by decide)
  exact ⟨s, hrun, of_decide_eq_true hs, casbin_isolated hrun (by decide)⟩

/-- The guest's `Enforce` fails, and the admin's succeeds before the guest has tested its error. -/
def overlapping : List (Action String) :=
  [.arrive guest, .arrive admin, .step 0 (true, none), .step 1 (true, none), .step 0 (false, some "no model"),
    .step 1 (true, none), .step 0 (true, none), .step 1 (true, none), .step 0 (true, none), .step 0 (true, none)]

/-- The guest is told that its access is denied, although its `Enforce` has failed. -/
theorem casbin_not_isolated : ∃ s, run (step "") initial overlapping = some s ∧ ¬Isolated "" s := by
  obtain ⟨s, hrun, hs⟩ := exists_run (step "") initial overlapping
    (p := fun s => decide (s.calls.head?.map (fun c => (c.phase, c.result)) =
      some (.done (.forbidden "access denied"), some (false, some "no model")))) (by decide)
  refine ⟨s, hrun, fun h => ?_⟩
  obtain ⟨c, hc, heq⟩ := Option.map_eq_some_iff.1 (of_decide_eq_true hs)
  obtain ⟨hphase, hresult⟩ := Prod.mk.inj heq
  have hfailed := (h.failed c (List.mem_of_head? hc) _ hphase).2 ⟨_, _, hresult⟩
  cases hfailed

end Noda.Server.Casbin
