import Noda.Auth.Effects
import Noda.Lib.Pool

/-!
# One-time tokens

A token is claimed by an execution of `consume_token`, or of `set_password` with a token (`Node.claims`).  The claim is
one transaction, guarded by `consumed_at IS NULL`, and a consumed token stays consumed, so at most one execution
succeeds with a token; whatever does not succeed leaves the tables as they were (`tokens_one_time`).
-/

namespace Noda.Auth

open Sql Transition

variable {E : Env}

def Node.claims (E : Env) : Node → Option (String × String)
  | .setPassword _ (some token) _ _ => some (E.hashToken token, purposeResetPassword)
  | .consumeToken token purpose => some (E.hashToken token, purpose)
  | _ => none

/-- The clock reading of an execution that is about to claim its token. -/
def Phase.readAt : Phase → Option Int
  | .setting _ now => some now
  | .consuming now => some now
  | _ => none

/-- What a successful claim of the token `t` has done besides consuming it: `set_password` has stored a hash of the
password for exactly the owner, and revoked the owner's live sessions if asked to; `consume_token` has marked exactly
the owner verified if that is the purpose. -/
def ClaimEffect (E : Env) (node : Node) (t : Token) (now : Int) (db db' : Database) : Prop :=
  match node with
  | .setPassword _ _ pw revoke =>
    (∃ hash, Derived E.crypto pw hash ∧ db'.users = update (·.id = t.userId) (·.withHash hash now) db.users) ∧
      db'.sessions = if revoke then update (·.liveOf t.userId) (·.revoke now) db.sessions else db.sessions
  | .consumeToken _ purpose =>
    db'.users = (if purpose = purposeVerifyEmail then
      update (·.id = t.userId) (·.verified now) db.users else db.users) ∧ db'.sessions = db.sessions
  | _ => False

/-- A claim: the token was there with the right purpose, unconsumed and not expired at the time the execution read, its
owner is there, it alone has been consumed, and the execution has had its effect. -/
structure Claim (E : Env) (e : Execution) (hash purpose : String) (db db' : Database) : Prop where
  exists_token : ∃ t ∈ db.tokens, ∃ now, e.phase.readAt = some now ∧ t.tokenHash = hash ∧ t.purpose = purpose ∧
    t.consumedAt = none ∧ t.expiresAt > now ∧ t.userId ∈ db.users.map User.id ∧
      db'.tokens = update (· = t) (·.consume now) db.tokens ∧ ClaimEffect E e.node t now db db'

/-- A step of an execution that claims a token succeeds and is a claim, or leaves the tables as they are. -/
theorem Moved.claim {db db' : Database} {e : Execution} {c : Choice} {ph : Phase} {set : List (String × String)}
    {hash purpose : String} (h : Moved E db e c db' ph set) (hok : HashOk E e.node e.phase)
    (hclaims : e.node.claims E = some (hash, purpose)) :
    (ph.succeeded = false ∧ db' = db) ∨ (ph.succeeded = true ∧ Claim E e hash purpose db db') := by
  cases h with
  | quiet _ login =>
    cases hs : ph.succeeded with
    | false => exact .inl ⟨rfl, rfl⟩
    | true =>
      obtain ⟨email, pw, hn⟩ := login hs
      rw [hn] at hclaims
      cases hclaims
  | upgraded node phase applied =>
    rw [node] at hclaims
    cases hclaims
  | @passwordSet userId token pw hash' uid revoke now n _ node phase changed byId byToken =>
    refine .inr ⟨rfl, ?_⟩
    rw [node, phase] at hok
    cases token with
    | none =>
      rw [node] at hclaims
      cases hclaims
    | some raw =>
      rw [node] at hclaims
      cases hclaims
      obtain ⟨t, ht, hc, rfl, htokens⟩ := byToken raw rfl
      obtain ⟨hh, hp, hnone, hexp⟩ := Token.claimable_iff.1 hc
      refine ⟨t, ht, now, by rw [phase]; rfl, hh, hp, hnone, hexp, db.owners t ht, htokens, ?_⟩
      rw [node]
      exact ⟨⟨hash', hok, changed.users⟩, changed.sessions⟩
  | @consumed token purpose' now t _ node phase mem claimable users sessions tokens =>
    refine .inr ⟨rfl, ?_⟩
    rw [node] at hclaims
    cases hclaims
    obtain ⟨hh, hp, hnone, hexp⟩ := Token.claimable_iff.1 claimable
    refine ⟨t, mem, now, by rw [phase]; rfl, hh, hp, hnone, hexp, db.owners t mem, tokens, ?_⟩
    rw [node]
    exact ⟨users, sessions⟩
  | invalidated node phase =>
    rw [node] at hclaims
    cases hclaims
  | inserted node phase inserted =>
    rw [node] at hclaims
    cases hclaims

/-! ### Consumed tokens stay consumed -/

def Spent (db : Database) (hash : String) : Prop := ∃ t ∈ db.tokens, t.tokenHash = hash ∧ t.consumedAt ≠ none

private theorem Spent.update {db db' : Database} {hash : String} {p : Token → Bool} {now : Int} (h : Spent db hash)
    (htokens : db'.tokens = update p (·.consume now) db.tokens) : Spent db' hash := by
  obtain ⟨t, ht, hh, hc⟩ := h
  refine ⟨_, htokens ▸ mem_update.2 ⟨t, ht, rfl⟩, ?_⟩
  split_ifs
  · exact ⟨hh, by simp [Token.consume]⟩
  · exact ⟨hh, hc⟩

private theorem Spent.of_tokens {db db' : Database} {hash : String} (h : Spent db hash)
    (htokens : db'.tokens = db.tokens) : Spent db' hash := by
  rw [Spent, htokens]
  exact h

theorem Spent.moved {db db' : Database} {e : Execution} {c : Choice} {ph : Phase} {set : List (String × String)}
    {hash : String} (hs : Spent db hash) (h : Moved E db e c db' ph set) : Spent db' hash := by
  cases h with
  | quiet _ _ => exact hs
  | upgraded node phase applied => exact hs
  | @passwordSet userId token pw hash' uid revoke now n _ node phase changed byId byToken =>
    cases token with
    | none => exact hs.of_tokens (byId rfl)
    | some raw =>
      obtain ⟨t, -, -, -, htokens⟩ := byToken raw rfl
      exact hs.update htokens
  | consumed node phase mem claimable users sessions tokens => exact hs.update tokens
  | invalidated node phase => exact hs.update rfl
  | inserted node phase inserted =>
    obtain ⟨t, ht, h⟩ := hs
    exact ⟨t, (insertToken_eq inserted).2.2 ▸ List.mem_append_left _ ht, h⟩

theorem Claim.spends {db db' : Database} {e : Execution} {hash purpose : String} (h : Claim E e hash purpose db db') :
    ¬Spent db hash ∧ Spent db' hash := by
  obtain ⟨t, ht, now, -, hh, -, hnone, -, -, htokens, -⟩ := h.exists_token
  constructor
  · rintro ⟨t', ht', hh', hc⟩
    exact hc (db.token_unique ht' ht (hh'.trans hh.symm) ▸ hnone)
  · exact ⟨t.consume now, htokens ▸ mem_update.2 ⟨t, ht, by simp⟩, hh, by simp [Token.consume]⟩

/-- The execution has returned `success` and claims the token of the hash. -/
def Execution.claimed (E : Env) (hash : String) (e : Execution) : Prop :=
  e.phase.succeeded = true ∧ ∃ purpose, e.node.claims E = some (hash, purpose)

/-- The invariant: the hashes are right, a token that was claimed successfully is spent, and it was claimed once. -/
structure TokensOk (E : Env) (s : State) : Prop where
  hashes : ∀ e ∈ s.executions, HashOk E e.node e.phase
  spent : ∀ hash, ∀ e ∈ s.executions, e.claimed E hash → Spent s.db hash
  once : ∀ (hash : String) (i j : Nat) (e e' : Execution), s.executions[i]? = some e → s.executions[j]? = some e' →
    e.claimed E hash → e'.claimed E hash → i = j

theorem TokensOk.execute {s : State} (hs : TokensOk E s) (svc : Service) (node : Node) :
    TokensOk E { s with executions := s.executions ++ [⟨svc, node, .start⟩] } := by
  have hstart : ∀ hash, ¬Execution.claimed E hash ⟨svc, node, .start⟩ := fun _ h => nomatch h.1
  have hold : ∀ {i : Nat} {e : Execution} {hash : String}, (s.executions ++ [⟨svc, node, .start⟩])[i]? = some e →
      e.claimed E hash → s.executions[i]? = some e := by
    intro i e hash hi hc
    rcases Pool.getElem?_concat_some hi with hi | ⟨-, rfl⟩
    · exact hi
    · exact absurd hc (hstart hash)
  refine ⟨?_, ?_, ?_⟩
  · exact hashOk_step (a := .execute svc node) hs.hashes rfl
  · intro hash e he hc
    obtain ⟨i, hi⟩ := List.mem_iff_getElem?.1 he
    exact hs.spent hash e (List.mem_of_getElem? (hold hi hc)) hc
  · intro hash i j e e' hi hj hc hc'
    exact hs.once hash i j e e' (hold hi hc) (hold hj hc') hc hc'

theorem TokensOk.move {s : State} {i : Nat} {c : Choice} {e : Execution} {db' : Database} {ph : Phase}
    {set : List (String × String)} (hs : TokensOk E s) (hi : s.executions[i]? = some e)
    (hm : Moved E s.db e c db' ph set)
    (hashes : ∀ e' ∈ s.executions.set i { e with phase := ph }, HashOk E e'.node e'.phase) :
    TokensOk E ⟨db', s.executions.set i { e with phase := ph }, set ++ s.passwords⟩ := by
  have hnew : ∀ hash, Execution.claimed E hash { e with phase := ph } → ¬Spent s.db hash ∧ Spent db' hash := by
    rintro hash ⟨hsucc, purpose, hclaims⟩
    rcases hm.claim (hs.hashes e (List.mem_of_getElem? hi)) hclaims with ⟨hfail, -⟩ | ⟨-, hclaim⟩
    · exact absurd (hfail.symm.trans hsucc) (by decide)
    · exact hclaim.spends
  refine ⟨hashes, ?_, ?_⟩
  · intro hash e' he' hc
    rcases List.mem_or_eq_of_mem_set he' with he' | rfl
    · exact (hs.spent hash e' he' hc).moved hm
    · exact (hnew hash hc).2
  · intro hash j k e₁ e₂ hj hk hc₁ hc₂
    rcases Pool.getElem?_set_some hj with ⟨rfl, rfl⟩ | ⟨-, hold₁⟩
    · rcases Pool.getElem?_set_some hk with ⟨rfl, rfl⟩ | ⟨-, hold₂⟩
      · rfl
      · exact absurd (hs.spent hash e₂ (List.mem_of_getElem? hold₂) hc₂) (hnew hash hc₁).1
    · rcases Pool.getElem?_set_some hk with ⟨rfl, rfl⟩ | ⟨-, hold₂⟩
      · exact absurd (hs.spent hash e₁ (List.mem_of_getElem? hold₁) hc₁) (hnew hash hc₂).1
      · exact hs.once hash j k e₁ e₂ hold₁ hold₂ hc₁ hc₂

private theorem tokensOk_of_reachable {db : Database} {s : State} (h : Reachable (step E) (initial db) s) :
    TokensOk E s := by
  refine h.invariant ?_ fun s a s' hs hstep => ?_
  · exact ⟨(fun _ he => nomatch he), (fun _ _ he => nomatch he), fun _ _ _ _ _ he => nomatch he⟩
  · have hashes := hashOk_step hs.hashes hstep
    rcases step_cases hstep with ⟨svc, node, -, rfl⟩ | ⟨i, c, e, db', ph, set, -, hi, hm, rfl⟩
    · exact hs.execute svc node
    · exact hs.move hi hm hashes

/-- **One-time tokens.**  In every run at most one execution succeeds with a token.  Every step of an execution that
claims a token leaves the tables as they are, unless it returns `success`, and then it is a claim of the token. -/
theorem tokens_one_time {db : Database} {s : State} (h : Reachable (step E) (initial db) s) :
    (∀ (hash : String) (i j : Nat) (e e' : Execution), s.executions[i]? = some e → s.executions[j]? = some e' →
      e.claimed E hash → e'.claimed E hash → i = j) ∧
    ∀ (i : Nat) c (e : Execution) s' hash purpose, s.executions[i]? = some e →
      e.node.claims E = some (hash, purpose) → step E s (.step i c) = some s' →
        ∃ ph, s'.executions[i]? = some { e with phase := ph } ∧
        ((ph.succeeded = false ∧ s'.db = s.db) ∨ (ph.succeeded = true ∧ Claim E e hash purpose s.db s'.db)) := by
  have hs := tokensOk_of_reachable h
  refine ⟨hs.once, fun i c e s' hash purpose hi hclaims hstep => ?_⟩
  rcases step_cases hstep with ⟨svc, node, ha, -⟩ | ⟨i', c', e', db', ph, set, ha, hi', hm, rfl⟩
  · cases ha
  · cases ha
    obtain rfl : e' = e := Option.some.inj (hi'.symm.trans hi)
    refine ⟨ph, ?_, hm.claim (hs.hashes _ (List.mem_of_getElem? hi)) hclaims⟩
    have hlt := (List.getElem?_eq_some_iff.1 hi).1
    rw [List.getElem?_set_self hlt]

/-- Two executions consume the same token, and one sets a password with another. -/
def aliceClaims : List Action :=
  [.execute sampleService (.consumeToken "verify-token" "verify_email"),
    .execute sampleService (.consumeToken "verify-token" "verify_email"),
    .execute sampleService (.setPassword none (some "reset-token") "new password" true),
    .step 0 (.smooth 1), .step 1 (.smooth 2), .step 2 (.smooth 3), .step 1 (.smooth 4), .step 0 (.smooth 5)]

theorem tokens_one_time_alice : ∃ s s' e, Reachable (step sampleEnv) (initial sampleDatabase) s ∧
    s.executions[2]? = some e ∧ step sampleEnv s (.step 2 (.smooth 6)) = some s' ∧
      (∃ ph, s'.executions[2]? = some { e with phase := ph } ∧
        ((ph.succeeded = false ∧ s'.db = s.db) ∨ (ph.succeeded = true ∧
          Claim sampleEnv e (sampleEnv.hashToken "reset-token") purposeResetPassword s.db s'.db))) ∧
      s.executions.map (fun e => e.phase.succeeded) = [false, true, false] ∧
      s'.executions.map (fun e => e.phase.succeeded) = [false, true, true] := by
  obtain ⟨s, hrun, hs⟩ := exists_run (step sampleEnv) (initial sampleDatabase) aliceClaims
    (p := fun s : State => (step sampleEnv s (.step 2 (.smooth 6))).any fun s' : State =>
      s.executions[2]?.any fun e : Execution =>
      decide (e.node.claims sampleEnv = some (sampleEnv.hashToken "reset-token", purposeResetPassword) ∧
        s.executions.map (fun e => e.phase.succeeded) = [false, true, false] ∧
        s'.executions.map (fun e => e.phase.succeeded) = [false, true, true])) (by decide +kernel)
  obtain ⟨s', hstep, hs⟩ := (Option.any_eq_true _ _).1 hs
  obtain ⟨e, he, hs⟩ := (Option.any_eq_true _ _).1 hs
  obtain ⟨hclaims, hbefore, hafter⟩ := of_decide_eq_true hs
  have hreach : Reachable (step sampleEnv) (initial sampleDatabase) s := ⟨_, hrun⟩
  exact ⟨s, s', e, hreach, he, hstep, (tokens_one_time hreach).2 2 _ e s' _ _ he hclaims hstep, hbefore, hafter⟩

end Noda.Auth
