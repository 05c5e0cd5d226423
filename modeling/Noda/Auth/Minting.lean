import Noda.Auth.Effects

/-!
# Minting one-time tokens

`create_token` invalidates the open tokens of a user and purpose and then inserts a new one, in two statements without a
transaction around them.  Two executions that both invalidate before they insert leave two open tokens, and an
execution whose insert fails has invalidated the tokens that were there (`minting_not_atomic`).  Where no open token is
left at an insert, and nothing was invalidated before an insert that fails, there is at most one open token, the newest
one, and a failed execution has changed nothing (`minting_atomic`).
-/

namespace Noda.Auth

open Sql Transition

variable {E : Env}

def Token.isFor (userId purpose : String) (t : Token) : Bool := t.userId = userId ∧ t.purpose = purpose

/-- An open token of the user and purpose is the one minted last; rows are in the order of their insertion. -/
def OneLive (db : Database) (userId purpose : String) : Prop :=
  ∀ t ∈ db.tokens, t.openFor userId purpose = true → (db.tokens.filter (·.isFor userId purpose)).getLast? = some t

/-- The tokens that have not been consumed. -/
def openTokens (db : Database) : List Token := db.tokens.filter (·.consumedAt = none)

/-- The execution is one of `create_token`, and it has returned an error. -/
def Execution.mintFailed (e : Execution) : Prop :=
  (∃ userId purpose ttl, e.node = .createToken userId purpose ttl) ∧ ∃ err, e.phase = .returned (.error err)

/-- What is expected of `create_token` after a run. -/
structure Minted (E : Env) (s₀ : State) (as : List Action) (s : State) : Prop where
  /-- at most one open token, the newest, whenever no execution mints for the user and purpose -/
  one_live : ∀ userId purpose, (∀ e ∈ s.executions, ∀ ttl, e.node = .createToken userId purpose ttl →
    ∃ out, e.phase = .returned out) → OneLive s.db userId purpose
  /-- no step of an execution that has returned an error has changed the open tokens -/
  failed : ∀ (i : Nat) (e : Execution), s.executions[i]? = some e → e.mintFailed → ∀ s₁ c s₂,
    Performs (step E) s₀ as s₁ (.step i c) s₂ → openTokens s₂.db = openTokens s₁.db

/-- The insert of a token fails: no token is drawn, or the statement fails, or it violates a constraint. -/
def InsertFails (E : Env) (db : Database) (userId purpose : String) (d now : Int) (c : Choice) : Prop :=
  ∀ raw, c.raw = some raw → c.fails = false → db.insertToken (mintedToken E userId purpose raw d now c.uuid) = none

def NoneOpen (db : Database) (userId purpose : String) : Prop := ∀ t ∈ db.tokens, t.openFor userId purpose = false

/-- Executions of `create_token` take turns: no token of the user and purpose is open when one inserts its own, and an
execution whose insert fails found none when it invalidated. -/
structure TakeTurns (E : Env) (s₀ : State) (as : List Action) : Prop where
  inserts : ∀ s₁ i c s₂ (e : Execution) userId purpose ttl d now, Performs (step E) s₀ as s₁ (.step i c) s₂ →
    s₁.executions[i]? = some e → e.node = .createToken userId purpose ttl → e.phase = .inserting d now →
      ¬InsertFails E s₁.db userId purpose d now c → NoneOpen s₁.db userId purpose
  fails : ∀ s₁ i c s₂ (e : Execution) userId purpose ttl d now, Performs (step E) s₀ as s₁ (.step i c) s₂ →
    s₁.executions[i]? = some e → e.node = .createToken userId purpose ttl → e.phase = .inserting d now →
      InsertFails E s₁.db userId purpose d now c → ∀ s₃ c' s₄ (e' : Execution) d' now',
        Performs (step E) s₀ as s₃ (.step i c') s₄ → s₃.executions[i]? = some e' → e'.phase = .invalidating d' now' →
          NoneOpen s₃.db userId purpose

/-! ### One open token -/

theorem Token.openFor_iff {userId purpose : String} {t : Token} : t.openFor userId purpose = true ↔
    t.userId = userId ∧ t.purpose = purpose ∧ t.consumedAt = none := by
  simp [Token.openFor]

theorem Token.isFor_of_openFor {userId purpose : String} {t : Token} (h : t.openFor userId purpose = true) :
    t.isFor userId purpose = true := by
  obtain ⟨hu, hp, -⟩ := Token.openFor_iff.1 h
  simp [Token.isFor, hu, hp]

private theorem filter_isFor_update {p : Token → Bool} {now : Int} {userId purpose : String} (rows : List Token) :
    (update p (·.consume now) rows).filter (·.isFor userId purpose) =
      update p (·.consume now) (rows.filter (·.isFor userId purpose)) := by
  rw [update, update, List.filter_map]
  congr 1
  refine List.filter_congr fun t _ => ?_
  by_cases hp : p t = true
  · simp [hp, Token.isFor, Token.consume]
  · simp [hp]

/-- Consuming tokens keeps at most one of them open. -/
private theorem OneLive.update {db db' : Database} {userId purpose : String} {p : Token → Bool} {now : Int}
    (h : OneLive db userId purpose) (htokens : db'.tokens = update p (·.consume now) db.tokens) :
    OneLive db' userId purpose := by
  intro t' ht' hopen
  rw [htokens] at ht'
  obtain ⟨t, ht, rfl⟩ := mem_update.1 ht'
  by_cases hp : p t = true
  · rw [if_pos hp] at hopen
    exact absurd (Token.openFor_iff.1 hopen).2.2 (by simp [Token.consume])
  · rw [if_neg hp] at hopen ⊢
    rw [htokens, filter_isFor_update, Sql.update, List.getLast?_map, h t ht hopen]
    simp [hp]

private theorem OneLive.of_tokens {db db' : Database} {userId purpose : String} (h : OneLive db userId purpose)
    (htokens : db'.tokens = db.tokens) : OneLive db' userId purpose := by
  rw [OneLive, htokens]
  exact h

private theorem OneLive.insert {db db' : Database} {userId purpose : String} {t : Token}
    (h : OneLive db userId purpose) (hins : db.insertToken t = some db')
    (hnone : t.isFor userId purpose = true → NoneOpen db userId purpose) : OneLive db' userId purpose := by
  have htokens := (insertToken_eq hins).2.2
  intro t' ht' hopen
  rw [htokens, List.mem_append, List.mem_singleton] at ht'
  rw [htokens, List.filter_append]
  rcases ht' with ht' | rfl
  · cases hf : t.isFor userId purpose with
    | true => exact absurd hopen (by simp [hnone hf t' ht'])
    | false => simpa [hf] using h t' ht' hopen
  · simp [Token.isFor_of_openFor hopen]

/-! ### The steps of `create_token` -/

private theorem stepExecution_createToken {db db' : Database} {e : Execution} {c : Choice} {ph : Phase}
    {set : List (String × String)} {userId purpose : String} {ttl : Option String}
    (hn : e.node = .createToken userId purpose ttl) (h : stepExecution E db e c = some (db', ph, set)) :
    (db' = db ∧ e.phase = .start) ∨
    (∃ d now, e.phase = .invalidating d now ∧ (db' = db ∧ (∃ err, ph = .returned (.error err)) ∨
      db' = (db.consumeTokens (·.openFor userId purpose) now).2 ∧ ph = .inserting d now)) ∨
    ∃ d now, e.phase = .inserting d now ∧ (InsertFails E db userId purpose d now c ∧ db' = db ∨
      ¬InsertFails E db userId purpose d now c ∧ ph.succeeded = true) := by
  obtain ⟨svc, node, phase⟩ := e
  cases hn
  unfold stepExecution at h
  cases phase with
  | start =>
    cases h
    exact .inl ⟨rfl, rfl⟩
  | invalidating d now =>
    refine .inr (.inl ⟨d, now, rfl, ?_⟩)
    dsimp only at h
    split_ifs at h
    · cases h
      exact .inl ⟨rfl, _, rfl⟩
    · cases h
      exact .inr ⟨rfl, rfl⟩
  | inserting d now =>
    refine .inr (.inr ⟨d, now, rfl, ?_⟩)
    simp only [Option.some.injEq, Prod.mk.injEq] at h
    obtain ⟨rfl, rfl, -⟩ := h
    unfold insertMinted
    split
    · rename_i hraw
      exact .inl ⟨fun raw hr => (nomatch hraw.symm.trans hr), rfl⟩
    · rename_i raw hraw
      split
      · rename_i hins
        refine .inl ⟨fun raw' hr hf => ?_, rfl⟩
        obtain rfl : raw = raw' := Option.some.inj (hraw.symm.trans hr)
        simpa [hf] using hins
      · rename_i db' hins
        refine .inr ⟨fun hfails => ?_, rfl⟩
        split_ifs at hins with hf
        exact nomatch (hfails raw hraw (by simpa using hf)).symm.trans hins
  | upgrading row hash => cases h
  | setting hash now => cases h
  | consuming now => cases h
  | returned out => cases h

/-! ### Runs -/

theorem TakeTurns.of_concat {s₀ : State} {as : List Action} {a : Action} (h : TakeTurns E s₀ (as ++ [a])) :
    TakeTurns E s₀ as := by
  refine ⟨?_, ?_⟩
  · intro s₁ i c s₂ e userId purpose ttl d now hp
    exact h.inserts s₁ i c s₂ e userId purpose ttl d now (performs_concat.2 (.inl hp))
  · intro s₁ i c s₂ e userId purpose ttl d now hp hi hn hph hf s₃ c' s₄ e' d' now' hp'
    exact h.fails s₁ i c s₂ e userId purpose ttl d now (performs_concat.2 (.inl hp)) hi hn hph hf s₃ c' s₄ e' d' now'
      (performs_concat.2 (.inl hp'))

/-- There is at most one open token after a run in which executions take turns. -/
private theorem oneLive_of_run {s₀ s : State} {as : List Action} (h : run (step E) s₀ as = some s)
    (h₀ : ∀ userId purpose, OneLive s₀.db userId purpose) :
    TakeTurns E s₀ as → ∀ userId purpose, OneLive s.db userId purpose := by
  refine run_history (P := fun as s => TakeTurns E s₀ as → ∀ userId purpose, OneLive s.db userId purpose) h
    (fun _ => h₀) ?_
  intro as s a s' hrun ih hstep hturns userId purpose
  have hlive := ih hturns.of_concat userId purpose
  rcases step_cases hstep with ⟨svc, node, rfl, rfl⟩ | ⟨i, c, e, db', ph, set, rfl, hi, hm, rfl⟩
  · exact hlive
  · cases hm with
    | quiet _ _ => exact hlive
    | upgraded node phase applied => exact hlive.of_tokens rfl
    | @passwordSet _ token _ _ _ _ _ _ _ node phase changed byId byToken =>
      cases token with
      | none => exact hlive.of_tokens (byId rfl)
      | some raw =>
        obtain ⟨t, -, -, -, htokens⟩ := byToken raw rfl
        exact hlive.update htokens
    | consumed node phase mem claimable users sessions tokens => exact hlive.update tokens
    | invalidated node phase => exact hlive.update rfl
    | @inserted uid p raw uuid ttl d now _ node phase inserted =>
      refine hlive.insert inserted fun hfor => ?_
      obtain ⟨rfl, rfl⟩ : uid = userId ∧ p = purpose := of_decide_eq_true hfor
      have hperf : Performs (step E) s₀ (as ++ [.step i c]) s (.step i c) _ :=
        performs_concat.2 (.inr ⟨rfl, hrun, hstep⟩)
      refine hturns.inserts s i c _ e uid p ttl d now hperf hi node phase fun hfails => ?_
      obtain ⟨e', db', ph, set, hi', hexec, heq⟩ := step_inv hstep
      obtain rfl : e = e' := Option.some.inj (hi.symm.trans hi')
      rcases stepExecution_createToken node hexec with ⟨-, hph⟩ | ⟨d', now', hph, -⟩ |
        ⟨d', now', hph, ⟨-, hdb⟩ | ⟨hno, -⟩⟩
      · exact nomatch phase.symm.trans hph
      · exact nomatch phase.symm.trans hph
      · have htokens := (insertToken_eq inserted).2.2
        rw [(State.mk.inj heq).1, hdb] at htokens
        exact absurd htokens (by simp)
      · obtain ⟨rfl, rfl⟩ : d = d' ∧ now = now' := by simpa using phase.symm.trans hph
        exact hno hfails

/-- What the steps of an execution of `create_token` have done so far: none has changed the open tokens, unless the
execution has succeeded, or it is between its statements and has invalidated some. -/
def MintSteps (E : Env) (s₀ : State) (as : List Action) (i : Nat) (e : Execution) (userId purpose : String) : Prop :=
  ∀ s₁ c s₂, Performs (step E) s₀ as s₁ (.step i c) s₂ → openTokens s₂.db = openTokens s₁.db ∨
    e.phase.succeeded = true ∨ (∃ d now, e.phase = .inserting d now) ∧ ¬NoneOpen s₁.db userId purpose ∧
      ∃ e₁ d now, s₁.executions[i]? = some e₁ ∧ e₁.phase = .invalidating d now

private theorem executions_length {s s' : State} {a : Action} (h : step E s a = some s') :
    s.executions.length ≤ s'.executions.length := by
  rcases step_cases h with ⟨svc, node, -, rfl⟩ | ⟨i, c, e, db', ph, set, -, -, -, rfl⟩
  · simp
  · simp

private theorem lt_of_performs {s₀ s s₁ s₂ : State} {as : List Action} {i : Nat} {c : Choice}
    (h : run (step E) s₀ as = some s) : Performs (step E) s₀ as s₁ (.step i c) s₂ → i < s.executions.length := by
  refine run_history (P := fun as s => Performs (step E) s₀ as s₁ (.step i c) s₂ → i < s.executions.length) h ?_ ?_
  · rintro ⟨before, after, has, -⟩
    simp at has
  · intro as s a s' hrun ih hstep hp
    rcases performs_concat.1 hp with hp | ⟨rfl, hrun', hstep'⟩
    · exact Nat.lt_of_lt_of_le (ih hp) (executions_length hstep)
    · obtain ⟨e, db', ph, set, hi, -⟩ := step_inv hstep'
      obtain rfl : s = s₁ := Option.some.inj (hrun.symm.trans hrun')
      exact Nat.lt_of_lt_of_le (List.getElem?_eq_some_iff.1 hi).1 (executions_length hstep)

private theorem tokens_of_noneOpen {db : Database} {userId purpose : String} {now : Int}
    (h : NoneOpen db userId purpose) :
    openTokens (db.consumeTokens (·.openFor userId purpose) now).2 = openTokens db := by
  have hzero : affected (·.openFor userId purpose) db.tokens = 0 := affected_eq_zero.2 fun t ht => by simp [h t ht]
  exact congrArg (List.filter _) (update_of_affected_eq_zero hzero)

/-- One more step of an execution of `create_token`. -/
private theorem MintSteps.step {s₀ s s' : State} {as : List Action} {i : Nat} {c : Choice} {e : Execution}
    {userId purpose : String} {ttl : Option String} (hrun : run (step E) s₀ as = some s)
    (hsteps : MintSteps E s₀ as i e userId purpose) (hi : s.executions[i]? = some e)
    (hn : e.node = .createToken userId purpose ttl) (hstep : Auth.step E s (.step i c) = some s')
    (hturns : TakeTurns E s₀ (as ++ [.step i c])) {ph : Phase} (hi' : s'.executions[i]? = some { e with phase := ph }) :
    MintSteps E s₀ (as ++ [.step i c]) i { e with phase := ph } userId purpose := by
  obtain ⟨e₀, db', ph', set, hi₀, hexec, rfl⟩ := step_inv hstep
  obtain rfl : e = e₀ := Option.some.inj (hi.symm.trans hi₀)
  obtain rfl : ph' = ph := by
    rw [List.getElem?_set_self (List.getElem?_eq_some_iff.1 hi).1] at hi'
    exact (Execution.mk.inj (Option.some.inj hi')).2.2
  suffices hall : (∀ s₁ c₁ s₂, Performs (Auth.step E) s₀ as s₁ (.step i c₁) s₂ → openTokens s₂.db = openTokens s₁.db) ∧
      (openTokens db' = openTokens s.db ∨ (∃ d now, ph' = .inserting d now) ∧ ¬NoneOpen s.db userId purpose ∧
        ∃ d now, e.phase = .invalidating d now) ∨ ph'.succeeded = true by
    intro s₁ c₁ s₂ hp
    rcases hall with ⟨hold, hnew⟩ | hsucc
    · rcases performs_concat.1 hp with hp | ⟨hc, hrun', hstep'⟩
      · exact .inl (hold s₁ c₁ s₂ hp)
      · cases hc
        obtain rfl : s = s₁ := Option.some.inj (hrun.symm.trans hrun')
        obtain rfl := Option.some.inj (hstep.symm.trans hstep')
        rcases hnew with hnew | ⟨hph, hopen, d, now, hinv⟩
        · exact .inl hnew
        · exact .inr (.inr ⟨hph, hopen, e, d, now, hi, hinv⟩)
    · exact .inr (.inl hsucc)
  have hperf : Performs (Auth.step E) s₀ (as ++ [.step i c]) s (.step i c) _ :=
    performs_concat.2 (.inr ⟨rfl, hrun, hstep⟩)
  rcases stepExecution_createToken hn hexec with ⟨rfl, hph⟩ | ⟨d, now, hph, hcases⟩ | ⟨d, now, hph, hcases⟩
  · refine .inl ⟨fun s₁ c₁ s₂ hp => ?_, .inl rfl⟩
    rcases hsteps s₁ c₁ s₂ hp with h | h | ⟨⟨d, now, h⟩, -⟩
    · exact h
    · simp [hph, Phase.succeeded] at h
    · exact nomatch hph.symm.trans h
  · refine .inl ⟨fun s₁ c₁ s₂ hp => ?_, ?_⟩
    · rcases hsteps s₁ c₁ s₂ hp with h | h | ⟨⟨d', now', h⟩, -⟩
      · exact h
      · simp [hph, Phase.succeeded] at h
      · exact nomatch hph.symm.trans h
    · rcases hcases with ⟨rfl, -⟩ | ⟨rfl, rfl⟩
      · exact .inl rfl
      · by_cases hnone : NoneOpen s.db userId purpose
        · exact .inl (tokens_of_noneOpen hnone)
        · exact .inr ⟨⟨d, now, rfl⟩, hnone, d, now, hph⟩
  · rcases hcases with ⟨hfails, rfl⟩ | ⟨-, hsucc⟩
    · refine .inl ⟨fun s₁ c₁ s₂ hp => ?_, .inl rfl⟩
      rcases hsteps s₁ c₁ s₂ hp with h | h | ⟨-, hopen, e₁, d₁, now₁, hi₁, hph₁⟩
      · exact h
      · simp [hph, Phase.succeeded] at h
      · exact absurd (hturns.fails s i c _ e userId purpose ttl d now hperf hi hn hph hfails s₁ c₁ s₂ e₁ d₁ now₁
          (performs_concat.2 (.inl hp)) hi₁ hph₁) hopen
    · exact .inr hsucc

private theorem mintSteps_of_run {s₀ s : State} {as : List Action} (h : run (step E) s₀ as = some s) :
    TakeTurns E s₀ as → ∀ (i : Nat) (e : Execution) userId purpose ttl, s.executions[i]? = some e →
      e.node = .createToken userId purpose ttl → MintSteps E s₀ as i e userId purpose := by
  refine run_history (P := fun as s => TakeTurns E s₀ as → ∀ (i : Nat) (e : Execution) userId purpose ttl,
    s.executions[i]? = some e → e.node = .createToken userId purpose ttl → MintSteps E s₀ as i e userId purpose) h ?_ ?_
  · rintro - i e userId purpose ttl - - s₁ c s₂ ⟨before, after, has, -⟩
    simp at has
  · intro as s a s' hrun ih hstep hturns i e userId purpose ttl hi hn
    have hsteps := ih hturns.of_concat i
    rcases step_cases hstep with ⟨svc, node, rfl, rfl⟩ | ⟨j, c, e₀, db', ph, set, rfl, hj, -, rfl⟩
    · intro s₁ c s₂ hp
      rcases performs_concat.1 hp with hp | ⟨hc, -⟩
      · have hlt := lt_of_performs hrun hp
        rw [List.getElem?_append_left hlt] at hi
        exact hsteps e userId purpose ttl hi hn s₁ c s₂ hp
      · cases hc
    · by_cases hij : j = i
      · subst hij
        have hself := List.getElem?_set_self (a := { e₀ with phase := ph }) (List.getElem?_eq_some_iff.1 hj).1
        obtain rfl : { e₀ with phase := ph } = e := Option.some.inj (hself.symm.trans hi)
        exact (hsteps e₀ userId purpose ttl hj hn).step hrun hj hn hstep hturns hself
      · rw [List.getElem?_set_ne hij] at hi
        intro s₁ c₁ s₂ hp
        rcases performs_concat.1 hp with hp | ⟨hc, -⟩
        · exact hsteps e userId purpose ttl hi hn s₁ c₁ s₂ hp
        · cases hc
          exact absurd rfl hij

/-- Where executions of `create_token` take turns, every user has at most one open token of a purpose, the newest one,
and an execution that fails has not changed the open tokens. -/
theorem minting_atomic {db : Database} {as : List Action} {s : State}
    (h₀ : ∀ userId purpose, OneLive db userId purpose) (hrun : run (step E) (initial db) as = some s)
    (hturns : TakeTurns E (initial db) as) : Minted E (initial db) as s := by
  refine ⟨fun userId purpose _ => oneLive_of_run hrun h₀ hturns userId purpose, ?_⟩
  rintro i e hi ⟨⟨userId, purpose, ttl, hn⟩, err, hph⟩ s₁ c s₂ hp
  rcases mintSteps_of_run hrun hturns i e userId purpose ttl hi hn s₁ c s₂ hp with h | h | ⟨⟨d, now, h⟩, -⟩
  · exact h
  · simp [hph, Phase.succeeded] at h
  · exact nomatch hph.symm.trans h

/-! ### A sample -/

/-- `HashToken` of two more tokens. -/
def mintingEnv : Env where
  crypto := sampleEnv.crypto
  hashToken raw :=
    if raw = "first-token" then "55b4b48f529c3d2daa027cbffa6cfb6a03690424550f22109e39917406c8243b"
    else if raw = "second-token" then "7a35833597e6687c599a0988b7a53b9b6a7ec18b88ca2a8e60f3265c8be6d527"
    else sampleEnv.hashToken raw
  normalizeEmail := sampleEnv.normalizeEmail

/-- If the step inserts a token, it succeeds, and no token of the user and purpose is open. -/
def mintsAlone (E : Env) (s : State) : Action → Bool
  | .execute _ _ => true
  | .step i c =>
    match s.executions[i]? with
    | some ⟨_, .createToken userId purpose _, .inserting d now⟩ =>
      (insertMinted E s.db userId purpose d now c).2.succeeded && s.db.tokens.all fun t => !t.openFor userId purpose
    | _ => true

private theorem not_insertFails {db : Database} {userId purpose : String} {d now : Int} {c : Choice}
    (h : (insertMinted E db userId purpose d now c).2.succeeded = true) : ¬InsertFails E db userId purpose d now c := by
  intro hfails
  unfold insertMinted at h
  split at h
  · cases h
  · rename_i raw hraw
    split at h
    · cases h
    · rename_i db' hins
      split_ifs at hins with hf
      exact nomatch (hfails raw hraw (by simpa using hf)).symm.trans hins

private theorem takeTurns_of_mintsAlone {s₀ : State} {as : List Action}
    (h : Meets (step E) (fun s a => mintsAlone E s a = true) s₀ as) : TakeTurns E s₀ as := by
  have halone : ∀ s₁ i c s₂ (e : Execution) userId purpose ttl d now, Performs (step E) s₀ as s₁ (.step i c) s₂ →
      s₁.executions[i]? = some e → e.node = .createToken userId purpose ttl → e.phase = .inserting d now →
        ¬InsertFails E s₁.db userId purpose d now c ∧ NoneOpen s₁.db userId purpose := by
    rintro s₁ i c s₂ ⟨svc, node, phase⟩ userId purpose ttl d now hp hi rfl rfl
    have hm : mintsAlone E s₁ (.step i c) = true := h.of_performs hp
    simp only [mintsAlone, hi, Bool.and_eq_true, List.all_eq_true, Bool.not_eq_true'] at hm
    exact ⟨not_insertFails hm.1, hm.2⟩
  refine ⟨fun s₁ i c s₂ e userId purpose ttl d now hp hi hn hph _ => ?_, ?_⟩
  · exact (halone s₁ i c s₂ e userId purpose ttl d now hp hi hn hph).2
  · intro s₁ i c s₂ e userId purpose ttl d now hp hi hn hph hf
    exact absurd hf (halone s₁ i c s₂ e userId purpose ttl d now hp hi hn hph).1

/-- A step that draws the token. -/
def draws (now : Int) (raw : String) : Choice := { Choice.smooth now with raw := some raw }

private theorem sampleDatabase_oneLive (userId purpose : String) : OneLive sampleDatabase userId purpose := by
  intro t ht hopen
  obtain ⟨rfl, rfl, -⟩ := Token.openFor_iff.1 hopen
  simp only [sampleDatabase, List.mem_cons, List.not_mem_nil, or_false] at ht
  rcases ht with rfl | rfl
  · rfl
  · rfl

/-- Alice asks for two tokens, one after the other. -/
def aliceMints : List Action :=
  [.execute sampleService (.createToken "u1" "reset_password" none),
    .step 0 (.smooth 1), .step 0 (.smooth 1), .step 0 (draws 1 "first-token"),
    .execute sampleService (.createToken "u1" "reset_password" none),
    .step 1 (.smooth 2), .step 1 (.smooth 2), .step 1 (draws 2 "second-token")]

theorem minting_atomic_alice : ∃ s, run (step mintingEnv) (initial sampleDatabase) aliceMints = some s ∧
    s.db.tokens.countP (·.openFor "u1" "reset_password") = 1 ∧
      Minted mintingEnv (initial sampleDatabase) aliceMints s := by
  obtain ⟨s, hrun, hs⟩ := exists_run (step mintingEnv) (initial sampleDatabase) aliceMints
    (p := fun s => decide (s.db.tokens.countP (·.openFor "u1" "reset_password") = 1)) (by decide +kernel)
  have hturns : Meets (step mintingEnv) (fun s a => mintsAlone mintingEnv s a = true) (initial sampleDatabase)
      aliceMints := by
    decide +kernel
  exact ⟨s, hrun, of_decide_eq_true hs,
    minting_atomic sampleDatabase_oneLive hrun (takeTurns_of_mintsAlone hturns)⟩

/-- Alice asks for two tokens at once: both executions invalidate before one inserts. -/
def aliceMintsTwice : List Action :=
  [.execute sampleService (.createToken "u1" "reset_password" none),
    .execute sampleService (.createToken "u1" "reset_password" none), .step 0 (.smooth 1), .step 1 (.smooth 1),
    .step 0 (.smooth 1), .step 1 (.smooth 1), .step 0 (draws 2 "first-token"), .step 1 (draws 2 "second-token")]

/-- The insert of Alice's token fails. -/
def aliceMintFails : List Action :=
  [.execute sampleService (.createToken "u1" "reset_password" none), .step 0 (.smooth 1), .step 0 (.smooth 1),
    .step 0 { draws 1 "first-token" with fails := true }]

/-- Two executions side by side leave two open tokens, and one that fails has consumed the token that was there. -/
theorem minting_not_atomic : (∀ userId purpose, OneLive sampleDatabase userId purpose) ∧
    (∃ s, run (step mintingEnv) (initial sampleDatabase) aliceMintsTwice = some s ∧
      ¬Minted mintingEnv (initial sampleDatabase) aliceMintsTwice s) ∧
    ∃ s, run (step mintingEnv) (initial sampleDatabase) aliceMintFails = some s ∧
      ¬Minted mintingEnv (initial sampleDatabase) aliceMintFails s := by
  refine ⟨sampleDatabase_oneLive, ?_, ?_⟩
  · obtain ⟨s, hrun, hs⟩ := exists_run (step mintingEnv) (initial sampleDatabase) aliceMintsTwice
      (p := fun s => decide ((∀ e ∈ s.executions, e.phase.succeeded = true) ∧ ∃ t ∈ s.db.tokens,
        t.openFor "u1" "reset_password" = true ∧
          (s.db.tokens.filter (·.isFor "u1" "reset_password")).getLast? ≠ some t)) (by decide +kernel)
    obtain ⟨hdone, t, ht, hopen, hlast⟩ := of_decide_eq_true hs
    refine ⟨s, hrun, fun h => hlast (h.one_live "u1" "reset_password" (fun e he ttl _ => ?_) t ht hopen)⟩
    have hsucc := hdone e he
    unfold Phase.succeeded at hsucc
    split at hsucc
    · rename_i data hph
      exact ⟨_, hph⟩
    · cases hsucc
  · obtain ⟨s, hrun, hs⟩ := exists_run (step mintingEnv) (initial sampleDatabase) aliceMintFails
      (p := fun s => decide (s.executions.map (fun e => (e.node, e.phase)) =
        [(.createToken "u1" "reset_password" none, .returned (.error (.database "token" "auth.create_token" .sql)))]))
      (by decide +kernel)
    have hexec := of_decide_eq_true hs
    obtain ⟨e, he, hpair⟩ := List.map_eq_singleton_iff.1 hexec
    obtain ⟨hn, hph⟩ := Prod.mk.inj hpair
    obtain ⟨s₁, hrun₁, h₁⟩ := exists_run (step mintingEnv) (initial sampleDatabase) (aliceMintFails.take 2)
      (p := fun s₁ => (step mintingEnv s₁ (.step 0 (.smooth 1))).any fun s₂ =>
        decide (openTokens s₂.db ≠ openTokens s₁.db)) (by decide +kernel)
    obtain ⟨s₂, hstep, h₂⟩ := (Option.any_eq_true _ _).1 h₁
    refine ⟨s, hrun, fun h => of_decide_eq_true h₂ ?_⟩
    refine h.failed 0 e (by rw [he]; rfl) ⟨⟨_, _, _, hn⟩, _, hph⟩ s₁ (.smooth 1) s₂ ?_
    exact ⟨aliceMintFails.take 2, aliceMintFails.drop 3, rfl, hrun₁, hstep⟩

end Noda.Auth
