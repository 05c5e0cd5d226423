import Noda.Auth.Nodes

/-!
# What the steps do

For each transaction of the auth nodes, what it has done to the tables when its callback returns.  An invalid token
leaves them as they were; otherwise exactly the one token that was claimable is consumed, and its owner is the user
that is changed.  `Moved` lists what a step of an execution can do; `stepExecution_moved` says that there is nothing
else.
-/

namespace Noda.Auth

open Sql

variable {E : Env} {db db' : Database} {fs fs' : List Bool} {hash purpose uid : String} {now : Int}

theorem Token.claimable_iff {t : Token} : t.claimable hash purpose now = true ↔
    t.tokenHash = hash ∧ t.purpose = purpose ∧ t.consumedAt = none ∧ t.expiresAt > now := by
  simp [Token.claimable]

private theorem update_claimable {t : Token} (ht : t ∈ db.tokens) (hc : t.claimable hash purpose now = true) :
    update (·.claimable hash purpose now) (·.consume now) db.tokens = update (· = t) (·.consume now) db.tokens := by
  refine List.map_congr_left fun t' ht' => ?_
  by_cases heq : t' = t
  · simp [heq, hc]
  · have hno : ¬t'.claimable hash purpose now = true := by
      intro hc'
      exact heq (db.token_unique ht' ht ((Token.claimable_iff.1 hc').1.trans (Token.claimable_iff.1 hc).1.symm))
    simp [heq, hno]

/-- `consumeTokenInTx` finds the token invalid, or it consumes the one claimable token and returns its owner. -/
private theorem consumeTokenInTx_ok {r : Option String}
    (h : consumeTokenInTx hash purpose now (db, fs) = .ok (r, db', fs')) :
    r = none ∧ db' = db ∨
      ∃ t ∈ db.tokens, t.claimable hash purpose now = true ∧ r = some t.userId ∧ db'.users = db.users ∧
        db'.sessions = db.sessions ∧ db'.tokens = update (· = t) (·.consume now) db.tokens := by
  obtain ⟨rows, s₁, h₁, h⟩ := bind_ok h
  obtain ⟨hrows, hs₁⟩ := statement_ok h₁
  by_cases hzero : rows = 0
  · rw [if_pos hzero] at h
    obtain ⟨rfl, rfl⟩ := pure_ok h
    rw [hzero] at hrows
    have hdb : db' = (db.consumeTokens (·.claimable hash purpose now) now).2 := hs₁.symm
    subst hdb
    exact .inl ⟨rfl, Database.ext rfl rfl (update_of_affected_eq_zero hrows)⟩
  · rw [if_neg hzero] at h
    rw [← hrows] at hzero
    obtain ⟨t, ht, hc⟩ := affected_ne_zero.1 hzero
    obtain ⟨owner, s₂, h₂, h⟩ := bind_ok h
    obtain ⟨howner, hs₂⟩ := statement_ok h₂
    by_cases hempty : owner = ""
    · rw [if_pos hempty] at h
      exact absurd h throw_ok
    · rw [if_neg hempty] at h
      obtain ⟨rfl, rfl⟩ := pure_ok h
      have hdb : db' = (db.consumeTokens (·.claimable hash purpose now) now).2 := hs₂.symm.trans hs₁.symm
      have hmem : t.consume now ∈ db'.tokens := by
        rw [hdb]
        exact mem_update.2 ⟨t, ht, by rw [if_pos hc]⟩
      have hhash : (t.consume now).tokenHash = hash := (Token.claimable_iff.1 hc).1
      have hs : s₁.1 = db' := hs₂
      have hown : owner = t.userId := by
        rw [← howner, hs, ← hhash]
        exact Database.tokenOwner_of_mem hmem
      refine .inr ⟨t, ht, hc, by rw [hown], ?_, ?_, ?_⟩
      · rw [hdb]; rfl
      · rw [hdb]; rfl
      · rw [hdb]
        exact update_claimable ht hc

/-- What `set_password` does once the user is known. -/
structure PasswordChanged (db db' : Database) (uid hash : String) (revoke : Bool) (now : Int) : Prop where
  found : ∃ u ∈ db.users, u.id = uid
  users : db'.users = update (·.id = uid) (·.withHash hash now) db.users
  sessions : db'.sessions = if revoke then update (·.liveOf uid) (·.revoke now) db.sessions else db.sessions

private theorem changePassword_ok {revoke : Bool} {r : String × Nat}
    (h : changePassword uid hash revoke now (db, fs) = .ok (r, db', fs')) :
    r.1 = uid ∧ PasswordChanged db db' uid hash revoke now ∧ db'.tokens = db.tokens := by
  obtain ⟨rows, s₁, h₁, h⟩ := bind_ok h
  obtain ⟨hrows, hs₁⟩ := statement_ok h₁
  by_cases hzero : rows = 0
  · rw [if_pos hzero] at h
    exact absurd h throw_ok
  · rw [if_neg hzero] at h
    rw [← hrows] at hzero
    obtain ⟨u, hu, hid⟩ := affected_ne_zero.1 hzero
    have hfound : ∃ u ∈ db.users, u.id = uid := ⟨u, hu, of_decide_eq_true hid⟩
    cases revoke with
    | false =>
      obtain ⟨rfl, rfl⟩ := pure_ok h
      have hdb : db' = (db.setPasswordHash uid hash now).2 := hs₁.symm
      subst hdb
      exact ⟨rfl, ⟨hfound, rfl, rfl⟩, rfl⟩
    | true =>
      obtain ⟨revoked, s₂, h₂, h⟩ := bind_ok h
      obtain ⟨-, hs₂⟩ := statement_ok h₂
      obtain ⟨rfl, rfl⟩ := pure_ok h
      rw [← hs₁] at hs₂
      have hdb : db' = ((db.setPasswordHash uid hash now).2.revokeSessions uid now).2 := hs₂.symm
      subst hdb
      exact ⟨rfl, ⟨hfound, rfl, rfl⟩, rfl⟩

/-- The transaction of `set_password`: the token is invalid and nothing has changed, or the user named or the owner of
the token has the new hash. -/
private theorem setPasswordTx_ok {userId token : Option String} {revoke : Bool} {r : Option (String × Nat)}
    (h : setPasswordTx E userId token hash revoke now (db, fs) = .ok (r, db', fs')) :
    r = none ∧ db' = db ∨
      ∃ uid n, r = some (uid, n) ∧ PasswordChanged db db' uid hash revoke now ∧
        (token = none → db'.tokens = db.tokens) ∧ ∀ raw, token = some raw → ∃ t ∈ db.tokens,
          t.claimable (E.hashToken raw) purposeResetPassword now = true ∧ t.userId = uid ∧
            db'.tokens = update (· = t) (·.consume now) db.tokens := by
  cases token with
  | none =>
    obtain ⟨⟨uid, n⟩, hchange, rfl⟩ := map_ok h
    obtain ⟨rfl, hchanged, htokens⟩ := changePassword_ok hchange
    exact .inr ⟨_, n, rfl, hchanged, fun _ => htokens, fun _ h => nomatch h⟩
  | some raw =>
    obtain ⟨owner, ⟨db₁, fs₁⟩, hconsume, hrest⟩ := bind_ok h
    rcases consumeTokenInTx_ok hconsume with ⟨rfl, hdb⟩ | ⟨t, ht, hc, rfl, hu, hs, htok⟩
    · obtain ⟨rfl, hst⟩ := pure_ok hrest
      injection hst with hst
      exact .inl ⟨rfl, hst ▸ hdb⟩
    · obtain ⟨⟨uid, n⟩, hchange, rfl⟩ := map_ok hrest
      obtain ⟨rfl, ⟨hfound, husers, hsessions⟩, htokens⟩ := changePassword_ok hchange
      rw [hu] at hfound husers
      rw [hs] at hsessions
      refine .inr ⟨_, n, rfl, ⟨hfound, husers, hsessions⟩, (fun h => nomatch h), ?_⟩
      rintro _ ⟨⟩
      exact ⟨t, ht, hc, rfl, htokens.trans htok⟩

/-- The transaction of `consume_token`: the token is invalid and nothing has changed, or it is consumed and, for
`verify_email`, its owner is verified. -/
private theorem consumeTx_ok {token : String} {r : Option String}
    (h : consumeTx E token purpose now (db, fs) = .ok (r, db', fs')) :
    r = none ∧ db' = db ∨
      ∃ t ∈ db.tokens, t.claimable (E.hashToken token) purpose now = true ∧ r = some t.userId ∧
        db'.users = (if purpose = purposeVerifyEmail then update (·.id = t.userId) (·.verified now) db.users
          else db.users) ∧
        db'.sessions = db.sessions ∧ db'.tokens = update (· = t) (·.consume now) db.tokens := by
  obtain ⟨owner, ⟨db₁, fs₁⟩, hconsume, hrest⟩ := bind_ok h
  rcases consumeTokenInTx_ok hconsume with ⟨rfl, hdb⟩ | ⟨t, ht, hc, rfl, hu, hs, htok⟩
  · obtain ⟨rfl, hst⟩ := pure_ok hrest
    injection hst with hst
    exact .inl ⟨rfl, hst ▸ hdb⟩
  · refine .inr ⟨t, ht, hc, ?_⟩
    dsimp only at hrest
    by_cases hp : purpose = purposeVerifyEmail
    · rw [if_pos hp] at hrest
      obtain ⟨rows, s₂, hmark, hrest⟩ := bind_ok hrest
      obtain ⟨-, hs₂⟩ := statement_ok hmark
      obtain ⟨rfl, rfl⟩ := pure_ok hrest
      have hdb : db' = (db₁.markVerified t.userId now).2 := hs₂.symm
      subst hdb
      refine ⟨rfl, ?_, hs, htok⟩
      rw [if_pos hp, ← hu]
      rfl
    · rw [if_neg hp] at hrest
      obtain ⟨rfl, hst⟩ := pure_ok hrest
      injection hst with hst
      subst hst
      exact ⟨rfl, by rw [if_neg hp, hu], hs, htok⟩

/-! ### The steps of an execution -/

private theorem derived_hashPassword {argon : ArgonParams} {random : Nat → UInt8} {pw : String}
    (h : hashPassword E.crypto argon (drawSalt argon random) pw = some hash) : Derived E.crypto pw hash :=
  ⟨argon, drawSalt argon random, by simp [drawSalt], h⟩

/-- The hash an execution is about to store was made from its password. -/
def HashOk (E : Env) : Node → Phase → Prop
  | .verifyCredentials _ pw, .upgrading _ hash => Derived E.crypto pw hash
  | .setPassword _ _ pw _, .setting hash _ => Derived E.crypto pw hash
  | _, _ => True

/-- The execution has returned `success`. -/
def Phase.succeeded : Phase → Bool
  | .returned (.success _) => true
  | _ => false

/-- What a step of an execution does: the tables and its phase afterwards, and the passwords set. -/
inductive Moved (E : Env) (db : Database) (e : Execution) (c : Choice) : Database → Phase →
    List (String × String) → Prop
  | quiet {ph : Phase} (hash : HashOk E e.node ph)
    (login : ph.succeeded = true → ∃ email pw, e.node = .verifyCredentials email pw) : Moved E db e c db ph []
  | upgraded {email pw hash : String} {row : User} (node : e.node = .verifyCredentials email pw)
    (phase : e.phase = .upgrading row hash) (applied : c.fails = false) :
    Moved E db e c (db.setPasswordHash row.id hash c.now).2 (.returned (.success (.user (userView row)))) []
  | passwordSet {userId token : Option String} {pw hash uid : String} {revoke : Bool} {now : Int} {n : Nat}
    {db' : Database} (node : e.node = .setPassword userId token pw revoke) (phase : e.phase = .setting hash now)
    (changed : PasswordChanged db db' uid hash revoke now) (byId : token = none → db'.tokens = db.tokens)
    (byToken : ∀ raw, token = some raw → ∃ t ∈ db.tokens,
      t.claimable (E.hashToken raw) purposeResetPassword now = true ∧ t.userId = uid ∧
        db'.tokens = update (· = t) (·.consume now) db.tokens) :
    Moved E db e c db' (.returned (.success (.revokedSessions n))) [(uid, pw)]
  | consumed {token purpose : String} {now : Int} {t : Token} {db' : Database}
    (node : e.node = .consumeToken token purpose) (phase : e.phase = .consuming now) (mem : t ∈ db.tokens)
    (claimable : t.claimable (E.hashToken token) purpose now = true)
    (users : db'.users = if purpose = purposeVerifyEmail then update (·.id = t.userId) (·.verified now) db.users
      else db.users)
    (sessions : db'.sessions = db.sessions) (tokens : db'.tokens = update (· = t) (·.consume now) db.tokens) :
    Moved E db e c db' (.returned (.success (.userId t.userId))) []
  | invalidated {userId purpose : String} {ttl : Option String} {d now : Int}
    (node : e.node = .createToken userId purpose ttl) (phase : e.phase = .invalidating d now) :
    Moved E db e c (db.consumeTokens (·.openFor userId purpose) now).2 (.inserting d now) []
  | inserted {userId purpose raw uuid : String} {ttl : Option String} {d now : Int} {db' : Database}
    (node : e.node = .createToken userId purpose ttl) (phase : e.phase = .inserting d now)
    (inserted : db.insertToken (mintedToken E userId purpose raw d now uuid) = some db') :
    Moved E db e c db' (.returned (.success (.token raw (now + d)))) []

private theorem checkCredentials_ok {svc : Service} {email pw : String} {row : User} {c : Choice} :
    HashOk E (.verifyCredentials email pw) (checkCredentials E svc pw row c) := by
  unfold checkCredentials
  split
  · trivial
  · trivial
  · trivial
  · split_ifs
    · trivial
    · split
      · trivial
      · split
        · trivial
        · rename_i hash hh
          exact derived_hashPassword hh
    · trivial

private theorem verifyCredentials_ok {svc : Service} {email pw : String} {c : Choice} :
    HashOk E (.verifyCredentials email pw) (verifyCredentials E svc email pw db c) := by
  unfold verifyCredentials
  split_ifs
  · trivial
  · split
    · trivial
    · exact checkCredentials_ok

private theorem prepareSetPassword_ok {svc : Service} {userId token : Option String} {pw : String} (revoke : Bool)
    {c : Choice} :
    HashOk E (.setPassword userId token pw revoke) (prepareSetPassword E svc userId token pw c) ∧
      (prepareSetPassword E svc userId token pw c).succeeded = false := by
  unfold prepareSetPassword
  split_ifs
  · exact ⟨trivial, rfl⟩
  · split
    · exact ⟨trivial, rfl⟩
    · split
      · exact ⟨trivial, rfl⟩
      · split
        · exact ⟨trivial, rfl⟩
        · rename_i hash hh
          exact ⟨derived_hashPassword hh, rfl⟩

private theorem prepareConsumeToken_succeeded {c : Choice} : (prepareConsumeToken purpose c).succeeded = false := by
  unfold prepareConsumeToken
  split_ifs
  · rfl
  · rfl

private theorem prepareCreateToken_succeeded {svc : Service} {ttl : Option String} {c : Choice} :
    (prepareCreateToken svc purpose ttl c).succeeded = false := by
  unfold prepareCreateToken
  split_ifs
  · split
    · rfl
    · split
      · rfl
      · rfl
  · rfl

/-- A step without an effect of an execution that does not succeed. -/
theorem Moved.failing {e : Execution} {c : Choice} {ph : Phase} (hash : HashOk E e.node ph) (h : ph.succeeded = false) :
    Moved E db e c db ph [] :=
  .quiet hash fun hs => absurd (h.symm.trans hs) (by decide)

private theorem setting_moved {e : Execution} {userId token : Option String} {pw : String} {revoke : Bool} {c : Choice}
    (node : e.node = .setPassword userId token pw revoke) (phase : e.phase = .setting hash now) :
    let r := transaction .sql (setPasswordTx E userId token hash revoke now) c.faults db
    Moved E db e c r.2 (.returned (txOutcome "user" "auth.set_password" (fun a => .revokedSessions a.2) r.1))
      (passwordsSet pw r.1) := by
  intro r
  have hok : ∀ out, HashOk E e.node (.returned out) := by rw [node]; exact fun _ => trivial
  rcases transaction_cases .sql (setPasswordTx E userId token hash revoke now) c.faults db with
    ⟨err, hr⟩ | ⟨⟨a, db₁, fs₁⟩, hbody, hr⟩
  · simp only [r, hr]
    exact .failing (hok _) rfl
  · simp only [r, hr]
    rcases setPasswordTx_ok hbody with ⟨rfl, rfl⟩ | ⟨uid, n, rfl, hchanged, hid, htok⟩
    · exact .failing (hok _) rfl
    · exact .passwordSet node phase hchanged hid htok

private theorem consuming_moved {e : Execution} {token : String} {c : Choice}
    (node : e.node = .consumeToken token purpose) (phase : e.phase = .consuming now) :
    let r := transaction .sql (consumeTx E token purpose now) c.faults db
    Moved E db e c r.2 (.returned (txOutcome "token" "auth.consume_token" .userId r.1)) [] := by
  intro r
  have hok : ∀ out, HashOk E e.node (.returned out) := by rw [node]; exact fun _ => trivial
  rcases transaction_cases .sql (consumeTx E token purpose now) c.faults db with
    ⟨err, hr⟩ | ⟨⟨a, db₁, fs₁⟩, hbody, hr⟩
  · simp only [r, hr]
    exact .failing (hok _) rfl
  · simp only [r, hr]
    rcases consumeTx_ok hbody with ⟨rfl, rfl⟩ | ⟨t, ht, hc, rfl, hu, hs, htok⟩
    · exact .failing (hok _) rfl
    · exact .consumed node phase ht hc hu hs htok

private theorem inserting_moved {e : Execution} {userId : String} {ttl : Option String} {d : Int} {c : Choice}
    (node : e.node = .createToken userId purpose ttl) (phase : e.phase = .inserting d now) :
    Moved E db e c (insertMinted E db userId purpose d now c).1 (insertMinted E db userId purpose d now c).2 [] := by
  have hok : ∀ ph, HashOk E e.node ph := by rw [node]; exact fun _ => trivial
  unfold insertMinted
  split
  · exact .failing (hok _) rfl
  · split
    · exact .failing (hok _) rfl
    · rename_i raw hraw db' hins
      split_ifs at hins
      exact .inserted node phase hins

theorem stepExecution_moved {e : Execution} {c : Choice} {ph : Phase} {set : List (String × String)}
    (h : stepExecution E db e c = some (db', ph, set)) : Moved E db e c db' ph set := by
  unfold stepExecution at h
  split at h
  · rename_i email pw hn hp
    cases h
    exact .quiet (by rw [hn]; exact verifyCredentials_ok) fun _ => ⟨email, pw, hn⟩
  · rename_i email pw row hash hn hp
    cases h
    cases hf : c.fails with
    | true => exact .quiet (by rw [hn]; trivial) fun _ => ⟨email, pw, hn⟩
    | false => exact .upgraded hn hp hf
  · rename_i userId token pw revoke hn hp
    cases h
    exact .failing (by rw [hn]; exact (prepareSetPassword_ok revoke).1) (prepareSetPassword_ok revoke).2
  · rename_i userId token pw revoke hash now hn hp
    cases h
    exact setting_moved hn hp
  · rename_i token purpose hn hp
    cases h
    exact .failing (by rw [hn]; trivial) prepareConsumeToken_succeeded
  · rename_i token purpose now hn hp
    cases h
    exact consuming_moved hn hp
  · rename_i userId purpose ttl hn hp
    cases h
    exact .failing (by rw [hn]; trivial) prepareCreateToken_succeeded
  · rename_i userId purpose ttl d now hn hp
    split_ifs at h
    · cases h
      exact .failing (by rw [hn]; trivial) rfl
    · cases h
      exact .invalidated hn hp
  · rename_i userId purpose ttl d now hn hp
    cases h
    exact inserting_moved hn hp
  · cases h

theorem step_inv {s s' : State} {i : Nat} {c : Choice} (h : step E s (.step i c) = some s') :
    ∃ e db' ph set, s.executions[i]? = some e ∧ stepExecution E s.db e c = some (db', ph, set) ∧
      s' = ⟨db', s.executions.set i { e with phase := ph }, set ++ s.passwords⟩ := by
  simp only [step] at h
  cases hi : s.executions[i]? with
  | none => rw [hi] at h; cases h
  | some e =>
    rw [hi] at h
    obtain ⟨⟨db', ph, set⟩, hstep, rfl⟩ := Option.map_eq_some_iff.1 h
    exact ⟨e, db', ph, set, rfl, hstep, rfl⟩

theorem step_cases {s s' : State} {a : Action} (h : step E s a = some s') :
    (∃ svc node, a = .execute svc node ∧
      s' = { s with executions := s.executions ++ [⟨svc, node, .start⟩] }) ∨
    ∃ i c e db' ph set, a = .step i c ∧ s.executions[i]? = some e ∧ Moved E s.db e c db' ph set ∧
      s' = ⟨db', s.executions.set i { e with phase := ph }, set ++ s.passwords⟩ := by
  cases a with
  | execute svc node =>
    cases h
    exact .inl ⟨svc, node, rfl, rfl⟩
  | step i c =>
    obtain ⟨e, db', ph, set, hi, hstep, rfl⟩ := step_inv h
    exact .inr ⟨i, c, e, db', ph, set, rfl, hi, stepExecution_moved hstep, rfl⟩

theorem insertToken_eq {t : Token} (h : db.insertToken t = some db') :
    db'.users = db.users ∧ db'.sessions = db.sessions ∧ db'.tokens = db.tokens ++ [t] := by
  unfold Database.insertToken at h
  split_ifs at h
  cases h
  exact ⟨rfl, rfl, rfl⟩

/-- The hash of every execution that is about to store one was made from its password. -/
theorem hashOk_step {s s' : State} {a : Action} (hs : ∀ e ∈ s.executions, HashOk E e.node e.phase)
    (h : step E s a = some s') : ∀ e ∈ s'.executions, HashOk E e.node e.phase := by
  intro e' he'
  rcases step_cases h with ⟨svc, node, -, rfl⟩ | ⟨i, c, e, db', ph, set, -, hi, hm, rfl⟩
  · rcases List.mem_append.1 he' with he' | he'
    · exact hs e' he'
    · rw [List.mem_singleton.1 he']
      cases node <;> trivial
  · rcases List.mem_or_eq_of_mem_set he' with he' | rfl
    · exact hs e' he'
    · cases hm with
      | quiet hash login => exact hash
      | upgraded node phase applied => rw [node]; trivial
      | passwordSet node phase changed byId byToken => rw [node]; trivial
      | consumed node phase mem claimable users sessions tokens => rw [node]; trivial
      | invalidated node phase => rw [node]; trivial
      | inserted node phase inserted => rw [node]; trivial

end Noda.Auth
