import Noda.Auth.Minting
import Noda.Auth.Sessions

/-!
# Who gets past the session middleware

* `requests_authenticated`: a request goes on only if, at one moment after it came, its token was that of a session that
  was not revoked, not expired at the time the request read, and whose user was active; the session was there at the
  start, or a `create_session` before that moment has created it;
* `revoked_sessions_stay_out`: what `revoke_session`, or `set_password` with `revoke_sessions`, is to revoke is never
  accepted again, in whatever order the steps of the calls come.
-/

namespace Noda.Auth

open Sql Transition

variable {E : SessionEnv} {s s' s₁ s₂ : SessionState} {db db' : Database} {row : Session} {data : AuthData}
  {token : String} {now : Int} {i : Nat}

/-! ### Queries -/

/-- The data of a request that was accepted. -/
def SessionPhase.accepted : SessionPhase → Option AuthData
  | .touching data _ => some data
  | .returned (.response (.next data)) => some data
  | _ => none

theorem Prepared.not_accepted {node : SessionNode} {ph : SessionPhase} (h : Prepared E node ph) (data : AuthData) :
    ph.accepted ≠ some data := by
  intro hacc
  cases ph with
  | touching data' now => exact h.touching data' now rfl
  | returned out =>
    cases out with
    | response r =>
      cases r with
      | next data' => exact h.next data' rfl
      | answer status message => cases hacc
    | created | revoked | failed | database => cases hacc
  | start | inserting | revoking | querying => cases hacc

/-- The session is live at a time of the clock, and its user active. -/
structure LiveFor (db : Database) (row : Session) (user : User) (now : Int) : Prop where
  mem : row ∈ db.sessions
  user_mem : user ∈ db.users
  owner : user.id = row.userId
  notRevoked : row.revokedAt = none
  notExpired : now < row.expiresAt
  active : user.status = "active"

private theorem authQuery_some {hash : String} {user : User} (h : authQuery db hash now = some (row, user)) :
    row.tokenHash = hash ∧ LiveFor db row user now := by
  rw [authQuery] at h
  obtain ⟨row', hmem, hrow⟩ := List.exists_of_findSome?_eq_some h
  split_ifs at hrow with hcond
  obtain ⟨u, hfind, heq⟩ := Option.map_eq_some_iff.1 hrow
  cases heq
  have huser : user.id = row.userId ∧ user.status = "active" := by simpa using List.find?_some hfind
  exact ⟨hcond.1, hmem, List.mem_of_find?_eq_some hfind, huser.1, hcond.2.1, hcond.2.2, huser.2⟩

private theorem afterQuery_accepted {lastUsed : String → Option Int}
    (h : (afterQuery E db lastUsed token now).accepted = some data) :
    ∃ row user, row.tokenHash = E.hashToken token ∧ LiveFor db row user now ∧ data = authData E row user := by
  rw [afterQuery] at h
  cases hq : authQuery db (E.hashToken token) now with
  | none =>
    rw [hq] at h
    cases h
  | some r =>
    obtain ⟨row, user⟩ := r
    obtain ⟨hhash, hlive⟩ := authQuery_some hq
    have hdata : data = authData E row user := by
      simp only [hq] at h
      split at h
      · split at h
        · exact (Option.some.inj h).symm
        · exact (Option.some.inj h).symm
      · exact (Option.some.inj h).symm
    exact ⟨row, user, hhash, hlive, hdata⟩

/-- After its query a request is accepted or answered. -/
private theorem afterQuery_phase (E : SessionEnv) (db : Database) (lastUsed : String → Option Int) (token : String)
    (now : Int) :
    (∃ data, afterQuery E db lastUsed token now = .touching data now) ∨
      ∃ r, afterQuery E db lastUsed token now = .returned (.response r) := by
  rw [afterQuery]
  split
  · exact .inr ⟨_, rfl⟩
  · split
    · split
      · exact .inl ⟨_, rfl⟩
      · exact .inr ⟨_, rfl⟩
    · exact .inl ⟨_, rfl⟩

private theorem afterQuery_ne_inserting {lastUsed : String → Option Int} (row : Session) (raw : String) (ttl : Int) :
    afterQuery E db lastUsed token now ≠ .inserting row raw ttl := by
  intro h
  rcases afterQuery_phase E db lastUsed token now with ⟨data, hph⟩ | ⟨r, hph⟩
  · cases hph.symm.trans h
  · cases hph.symm.trans h

private theorem afterQuery_ne_querying {lastUsed : String → Option Int} (token' : String) (now' : Int) :
    afterQuery E db lastUsed token now ≠ .querying token' now' := by
  intro h
  rcases afterQuery_phase E db lastUsed token now with ⟨data, hph⟩ | ⟨r, hph⟩
  · cases hph.symm.trans h
  · cases hph.symm.trans h

/-- The step is the query of the call `i` for a token, and it accepts the request. -/
structure Accepts (s : SessionState) (i : Nat) (s' : SessionState) (token : String) (now : Int) (data : AuthData) :
    Prop where
  querying : ∃ k, s.calls[i]? = some k ∧ k.phase = .querying token now
  accepted : ∃ k', s'.calls[i]? = some k' ∧ k'.phase.accepted = some data

theorem Accepts.live {c : SessionChoice} (h : Accepts s i s' token now data)
    (hstep : sessionStep E s (.step i c) = some s') :
    ∃ row user, row.tokenHash = E.hashToken token ∧ LiveFor s.auth.db row user now ∧ data = authData E row user := by
  obtain ⟨k, hk, hphase⟩ := h.querying
  obtain ⟨k₁, db', lastUsed', ph, hk₁, hcall, rfl⟩ := sessionStep_call hstep
  obtain ⟨k', hk', hacc⟩ := h.accepted
  rw [hk] at hk₁
  cases hk₁
  rw [List.getElem?_set_self (List.getElem?_eq_some_iff.1 hk).1] at hk'
  cases hk'
  dsimp only at hacc
  cases hcall with
  | prepared ph hprep => exact absurd hacc (hprep.not_accepted data)
  | inserted row raw ttl out db' hph hins hout => exact absurd hacc (hout.not_accepted data)
  | revoked token sessionID userID now count cookie hnode hph => cases hacc
  | queried token' now' lastUsed hph =>
    rw [hphase] at hph
    cases hph
    exact afterQuery_accepted hacc
  | touched data' now' hph =>
    rw [hphase] at hph
    cases hph

/-! ### The calls of a run -/

variable {lastUsed : String → Option Int} {as : List SessionAction}

/-- A step of the run, by which the request of call `i` was accepted. -/
def WasAccepted (E : SessionEnv) (s₀ : SessionState) (as : List SessionAction) (i : Nat) (token : String)
    (data : AuthData) : Prop :=
  ∃ s₁ c s₂ now, Performs (sessionStep E) s₀ as s₁ (.step i c) s₂ ∧ Accepts s₁ i s₂ token now data

/-- What is known about a call after a run. -/
structure CallOk (E : SessionEnv) (s₀ : SessionState) (as : List SessionAction) (i : Nat) (k : SessionCall) : Prop where
  inserting : ∀ row raw ttl, k.phase = .inserting row raw ttl → NewSession E k.node row raw
  querying : ∀ token now, k.phase = .querying token now →
    ∃ cookie header, k.node = .request cookie header ∧ token = sessionToken cookie header ∧ token ≠ ""
  accepted : ∀ data, k.phase.accepted = some data → ∃ cookie header, k.node = .request cookie header ∧
    sessionToken cookie header ≠ "" ∧ WasAccepted E s₀ as i (sessionToken cookie header) data

theorem WasAccepted.concat {s₀ : SessionState} (h : WasAccepted E s₀ as i token data) (a : SessionAction) :
    WasAccepted E s₀ (as ++ [a]) i token data := by
  obtain ⟨s₁, c, s₂, now, hperf, hacc⟩ := h
  exact ⟨s₁, c, s₂, now, performs_concat.2 (.inl hperf), hacc⟩

theorem CallOk.concat {s₀ : SessionState} {k : SessionCall} (h : CallOk E s₀ as i k) (a : SessionAction) :
    CallOk E s₀ (as ++ [a]) i k := by
  refine ⟨h.inserting, h.querying, fun data hacc => ?_⟩
  obtain ⟨cookie, header, hnode, hne, hwas⟩ := h.accepted data hacc
  exact ⟨cookie, header, hnode, hne, hwas.concat a⟩

theorem Prepared.callOk {s₀ : SessionState} {k : SessionCall} {ph : SessionPhase} (h : Prepared E k.node ph) :
    CallOk E s₀ as i { k with phase := ph } :=
  ⟨h.inserting, h.querying, fun data hacc => absurd hacc (h.not_accepted data)⟩

private theorem callsOk_of_run {s₀ : SessionState} (h₀ : s₀.calls = []) (h : run (sessionStep E) s₀ as = some s) :
    ∀ i k, s.calls[i]? = some k → CallOk E s₀ as i k := by
  refine run_history (P := fun as s => ∀ i k, s.calls[i]? = some k → CallOk E s₀ as i k) h ?_ ?_
  · intro i k hk
    rw [h₀] at hk
    cases hk
  · intro as s a s' hrun hs ha j k hk
    cases a with
    | auth a =>
      obtain ⟨auth', -, rfl⟩ := Option.map_eq_some_iff.1 ha
      exact (hs j k hk).concat _
    | call svc node =>
      cases ha
      dsimp only at hk
      rw [List.getElem?_append] at hk
      split at hk
      · exact (hs j k hk).concat _
      · rw [List.mem_singleton.1 (List.mem_of_getElem? hk)]
        exact ⟨nofun, nofun, nofun⟩
    | step i c =>
      obtain ⟨k₀, db', lastUsed', ph, hk₀, hcall, rfl⟩ := sessionStep_call ha
      by_cases hij : i = j
      · subst hij
        have hold := hs i k₀ hk₀
        have hk' := hk
        rw [List.getElem?_set_self (List.getElem?_eq_some_iff.1 hk₀).1] at hk'
        cases hk'
        cases hcall with
        | prepared ph hprep => exact hprep.callOk
        | inserted row raw ttl out db' hph hins hout => exact hout.callOk
        | revoked token sessionID userID now count cookie hnode hph => exact ⟨nofun, nofun, nofun⟩
        | queried token now lastUsed hph =>
          obtain ⟨cookie, header, hnode, htoken, hne⟩ := hold.querying token now hph
          subst htoken
          refine ⟨fun row raw ttl h => ?_, fun token' now' h => ?_, fun data hacc => ?_⟩
          · exact absurd h (afterQuery_ne_inserting row raw ttl)
          · exact absurd h (afterQuery_ne_querying token' now')
          · refine ⟨cookie, header, hnode, hne, s, c, _, now, ?_, ⟨⟨k₀, hk₀, hph⟩, ⟨_, hk, hacc⟩⟩⟩
            exact performs_concat.2 (.inr ⟨rfl, hrun, ha⟩)
        | touched data now hph =>
          refine ⟨nofun, nofun, fun data' hacc => ?_⟩
          obtain ⟨cookie, header, hnode, hne, hwas⟩ := hold.accepted data (by rw [hph]; rfl)
          cases hacc
          exact ⟨cookie, header, hnode, hne, hwas.concat _⟩
      · rw [List.getElem?_set_ne hij] at hk
        exact (hs j k hk).concat _

/-! ### Where sessions come from -/

/-- The session was there at the start, or a `create_session` of the run has inserted it. -/
def Genuine (E : SessionEnv) (s₀ : SessionState) (as : List SessionAction) (row : Session) : Prop :=
  (∃ row₀ ∈ s₀.auth.db.sessions, row₀.Becomes row) ∨
    ∃ s₁ i c s₂ k row₀ raw ttl, Performs (sessionStep E) s₀ as s₁ (.step i c) s₂ ∧ s₁.calls[i]? = some k ∧
      k.phase = .inserting row₀ raw ttl ∧ NewSession E k.node row₀ raw ∧
      s₂.auth.db.sessions = s₁.auth.db.sessions ++ [row₀] ∧ row₀.Becomes row

theorem Genuine.concat {s₀ : SessionState} {row' : Session} (h : Genuine E s₀ as row) (hb : row.Becomes row')
    (a : SessionAction) : Genuine E s₀ (as ++ [a]) row' := by
  rcases h with ⟨row₀, hrow₀, hb₀⟩ | ⟨s₁, i, c, s₂, k, row₀, raw, ttl, hperf, hk, hph, hnew, hadd, hb₀⟩
  · exact .inl ⟨row₀, hrow₀, hb₀.trans hb⟩
  · exact .inr ⟨s₁, i, c, s₂, k, row₀, raw, ttl, performs_concat.2 (.inl hperf), hk, hph, hnew, hadd, hb₀.trans hb⟩

private theorem auth_length {auth auth' : State} {a : Action} (h : step E.toEnv auth a = some auth') :
    auth'.db.sessions.length = auth.db.sessions.length := by
  rcases step_cases h with ⟨svc, node, -, rfl⟩ | ⟨i, c, e, db', ph, set, -, -, hm, rfl⟩
  · rfl
  · cases hm with
    | passwordSet node phase changed byId byToken =>
      rw [changed.sessions]
      split
      · rw [update, List.length_map]
      · rfl
    | consumed node phase mem claimable users sessions tokens => rw [sessions]
    | inserted node phase inserted => rw [(insertToken_eq inserted).2.1]
    | quiet | upgraded | invalidated => rfl

private theorem inserted_of_added {a : SessionAction} (ha : sessionStep E s a = some s')
    (hadd : s'.auth.db.sessions = s.auth.db.sessions ++ [row]) :
    ∃ i c k raw ttl, a = .step i c ∧ s.calls[i]? = some k ∧ k.phase = .inserting row raw ttl := by
  have hlength : s'.auth.db.sessions.length ≠ s.auth.db.sessions.length := by
    rw [hadd, List.length_append]
    simp
  cases a with
  | auth a =>
    obtain ⟨auth', hstep, rfl⟩ := Option.map_eq_some_iff.1 ha
    exact absurd (auth_length hstep) hlength
  | call svc node =>
    cases ha
    exact absurd rfl hlength
  | step i c =>
    obtain ⟨k, db', lastUsed', ph, hk, hcall, rfl⟩ := sessionStep_call ha
    cases hcall with
    | inserted row' raw ttl out db' hph hins hout =>
      have hrows : s.auth.db.sessions ++ [row'] = s.auth.db.sessions ++ [row] :=
        (insertSession_move hins).1.symm.trans hadd
      have hsame : row' = row := by simpa using hrows
      subst hsame
      exact ⟨i, c, k, raw, ttl, rfl, hk, hph⟩
    | revoked token sessionID userID now count cookie hnode hph =>
      refine absurd ?_ hlength
      show (update _ _ s.auth.db.sessions).length = _
      rw [update, List.length_map]
    | prepared | queried | touched => exact absurd rfl hlength

private theorem genuine_of_run {s₀ : SessionState} (h₀ : s₀.calls = []) (h : run (sessionStep E) s₀ as = some s) :
    ∀ row ∈ s.auth.db.sessions, Genuine E s₀ as row := by
  refine run_history (P := fun as s => ∀ row ∈ s.auth.db.sessions, Genuine E s₀ as row) h
    (fun row hrow => .inl ⟨row, hrow, .refl row⟩) fun as s a s' hrun hs ha row' hrow' => ?_
  rcases (sessionStep_move ha).1.origin hrow' with ⟨row, hrow, hb⟩ | hadd
  · exact (hs row hrow).concat hb a
  · obtain ⟨i, c, k, raw, ttl, rfl, hk, hph⟩ := inserted_of_added ha hadd
    have hnew := (callsOk_of_run h₀ hrun i k hk).inserting row' raw ttl hph
    exact .inr ⟨s, i, c, s', k, row', raw, ttl, performs_concat.2 (.inr ⟨rfl, hrun, ha⟩), hk, hph, hnew, hadd,
      .refl row'⟩

/-- A request goes on only after a query at which its token was that of a live session of an active user.  The session
was there at the start or comes from a `create_session` before the query, and it was not revoked at any time before. -/
theorem requests_authenticated {E : SessionEnv} {db : Database} (hdb : SessionsOk db) {lastUsed : String → Option Int}
    {as : List SessionAction} {s : SessionState}
    (hrun : run (sessionStep E) (initialSessions db lastUsed) as = some s) {i : Nat} {k : SessionCall}
    (hk : s.calls[i]? = some k) {cookie header : String} (hnode : k.node = .request cookie header) {data : AuthData}
    (hnext : k.phase = .returned (.response (.next data))) :
    ∃ before c after s₁ k₁ now row user, as = before ++ .step i c :: after ∧
      run (sessionStep E) (initialSessions db lastUsed) before = some s₁ ∧
      s₁.calls[i]? = some k₁ ∧ k₁.phase = .querying (sessionToken cookie header) now ∧
      sessionToken cookie header ≠ "" ∧ row.tokenHash = E.hashToken (sessionToken cookie header) ∧
      LiveFor s₁.auth.db row user now ∧ data = authData E row user ∧
      Genuine E (initialSessions db lastUsed) before row ∧
      ∀ before₁ before₂ s₂, before = before₁ ++ before₂ →
        run (sessionStep E) (initialSessions db lastUsed) before₁ = some s₂ →
        ∀ row' ∈ s₂.auth.db.sessions, row'.id = row.id → row'.revokedAt = none := by
  have hok := callsOk_of_run rfl hrun i k hk
  obtain ⟨cookie', header', hnode', hne, hwas⟩ := hok.accepted data (by rw [hnext]; rfl)
  rw [hnode] at hnode'
  cases hnode'
  obtain ⟨s₁, c, s₂, now, ⟨before, after, rfl, hbefore, hstep⟩, hacc⟩ := hwas
  obtain ⟨row, user, hhash, hlive, hdata⟩ := hacc.live hstep
  obtain ⟨k₁, hk₁, hph₁⟩ := hacc.querying
  refine ⟨before, c, after, s₁, k₁, now, row, user, rfl, hbefore, hk₁, hph₁, hne, hhash, hlive, hdata,
    genuine_of_run rfl hbefore row hlive.mem, fun before₁ before₂ s₂ heq hrun₁ row' hrow' hid => ?_⟩
  subst heq
  have hrun₂ : run (sessionStep E) s₂ before₂ = some s₁ := run_append hrun₁ hbefore
  obtain ⟨row'', hrow'', hb⟩ := becomes_of_run hrun₂ hrow'
  have hids := (sessionsOk_of_run (s := initialSessions db lastUsed) hdb hbefore).ids
  have hsame : row'' = row := List.inj_on_of_nodup_map hids hrow'' hlive.mem (hb.id.trans hid)
  subst hsame
  exact hb.live hlive.notRevoked

/-- The functions of the samples: roles are an empty list, and a duration is a whole number of seconds. -/
def sessionEnv : SessionEnv where
  toEnv := mintingEnv
  parseRoles _ := []
  seconds d := d / 1000000000

/-- The sample service with the default lifetime and cookie. -/
def sessionService : Configured where
  toService := sampleService
  databaseName := "main"
  sessionTTL := 720 * hour
  cookie := ⟨"noda_session", "/", "", "Lax", true, true⟩

/-- The environment of a step in which nothing fails. -/
def smoothAt (now : Int) : SessionChoice := ⟨none, false, now, some "first-token", "s2"⟩

/-- Alice logs in, and her request carries the token of the new session. -/
def aliceLogsIn : List SessionAction :=
  [.call sessionService (.createSession "u1" none), .step 0 (smoothAt 1), .step 0 (smoothAt 1),
    .call sessionService (.request "" "Bearer first-token"), .step 1 (smoothAt 2), .step 1 (smoothAt 2),
    .step 1 (smoothAt 2)]

private theorem sampleDatabase_sessionsOk : SessionsOk sampleDatabase := ⟨by decide, by decide, by decide⟩

def aliceData : AuthData := ⟨"u1", "alice@example.com", false, "s2", []⟩

/-- A check of the call `i`. -/
def SessionState.callAt (s : SessionState) (i : Nat) (p : SessionCall → Bool) : Bool := (s.calls[i]?).any p

private theorem exists_callAt {p : SessionCall → Bool} (h : s.callAt i p = true) :
    ∃ k, s.calls[i]? = some k ∧ p k = true :=
  (Option.any_eq_true p _).1 h

theorem requests_authenticated_alice :
    ∃ s k, run (sessionStep sessionEnv) (initialSessions sampleDatabase fun _ => none) aliceLogsIn = some s ∧
      s.calls[1]? = some k ∧ k.phase = .returned (.response (.next aliceData)) ∧
      ∃ before s₁ row, before <+: aliceLogsIn ∧
        run (sessionStep sessionEnv) (initialSessions sampleDatabase fun _ => none) before = some s₁ ∧
        row ∈ s₁.auth.db.sessions ∧ row.tokenHash = sessionEnv.hashToken "first-token" := by
  obtain ⟨s, hrun, hs⟩ := exists_run (sessionStep sessionEnv) (initialSessions sampleDatabase fun _ => none) aliceLogsIn
    (p := fun s => s.callAt 1 fun k => decide (k.node = .request "" "Bearer first-token" ∧
      k.phase = .returned (.response (.next aliceData)))) (by decide +kernel)
  obtain ⟨k, hk, h⟩ := exists_callAt hs
  obtain ⟨hnode, hph⟩ := of_decide_eq_true h
  obtain ⟨before, c, after, s₁, k₁, now, row, user, heq, hbefore, -, -, -, hhash, hlive, -⟩ :=
    requests_authenticated sampleDatabase_sessionsOk hrun hk hnode hph
  refine ⟨s, k, hrun, hk, hph, before, s₁, row, ⟨_, heq.symm⟩, hbefore, hlive.mem, hhash.trans ?_⟩
  decide +kernel

/-! ### Revocation -/

/-- What `revoke_session` is to revoke. -/
def MeantBy (E : SessionEnv) (token sessionID userID : String) (row : Session) : Prop :=
  if token ≠ "" then row.tokenHash = E.hashToken token
  else if sessionID ≠ "" then row.id = sessionID
  else row.userId = userID

/-- The step is the one in which a `revoke_session` that means the session, or a `set_password` of its user that
revokes the sessions, succeeds. -/
inductive Revokes (E : SessionEnv) (s : SessionState) (a : SessionAction) (s' : SessionState) (row : Session) : Prop
  | node (i : Nat) (c : SessionChoice) (k k' : SessionCall) (token sessionID userID : String) (count : Nat)
      (cookie : CookieObject) (ha : a = .step i c) (hk : s.calls[i]? = some k)
      (hnode : k.node = .revokeSession token sessionID userID) (hk' : s'.calls[i]? = some k')
      (hret : k'.phase = .returned (.revoked count cookie)) (hrow : MeantBy E token sessionID userID row)
  | password (i : Nat) (c : Choice) (e e' : Execution) (userId token : Option String) (pw : String) (n : Nat)
      (ha : a = .auth (.step i c)) (he : s.auth.executions[i]? = some e)
      (hnode : e.node = .setPassword userId token pw true) (he' : s'.auth.executions[i]? = some e')
      (hret : e'.phase = .returned (.success (.revokedSessions n)))
      (hrow : s'.auth.passwords = (row.userId, pw) :: s.auth.passwords)

private theorem mem_revoked {p : Session → Bool} (hrow : row ∈ db.sessions) (hp : row.revokedAt = none → p row = true) :
    ∃ row' ∈ update p (·.revoke now) db.sessions, row'.id = row.id ∧ row'.tokenHash = row.tokenHash ∧
      row'.revokedAt ≠ none := by
  refine ⟨if p row then row.revoke now else row, mem_update.2 ⟨row, hrow, rfl⟩, ?_⟩
  by_cases hpr : p row = true
  · rw [if_pos hpr]
    exact ⟨rfl, rfl, Option.some_ne_none _⟩
  · rw [if_neg hpr]
    exact ⟨rfl, rfl, fun hnone => hpr (hp hnone)⟩

theorem Revokes.revoked {a : SessionAction} (h : Revokes E s a s' row) (hstep : sessionStep E s a = some s')
    (hrow : row ∈ s.auth.db.sessions) :
    ∃ row' ∈ s'.auth.db.sessions, row'.id = row.id ∧ row'.tokenHash = row.tokenHash ∧ row'.revokedAt ≠ none := by
  cases h with
  | node i c k k' token sessionID userID count cookie ha hk hnode hk' hret hmeant =>
    subst ha
    obtain ⟨k₁, db', lastUsed', ph, hk₁, hcall, rfl⟩ := sessionStep_call hstep
    rw [hk] at hk₁
    cases hk₁
    rw [List.getElem?_set_self (List.getElem?_eq_some_iff.1 hk).1] at hk'
    cases hk'
    dsimp only at hret
    cases hcall with
    | prepared ph hprep => exact absurd hret (hprep.revoked count cookie)
    | inserted row raw ttl out db' hph hins hout => exact absurd hret (hout.revoked count cookie)
    | revoked token' sessionID' userID' now count' cookie' hnode' hph =>
      rw [hnode] at hnode'
      cases hnode'
      refine mem_revoked hrow fun hlive => ?_
      exact decide_eq_true ⟨hlive, hmeant⟩
    | queried token' now lastUsed hph =>
      rcases afterQuery_phase E s.auth.db lastUsed token' now with ⟨data, hq⟩ | ⟨r, hq⟩
      · cases hq.symm.trans hret
      · cases hq.symm.trans hret
    | touched data now hph => cases hret
  | password i c e e' userId token pw n ha he hnode he' hret hpw =>
    subst ha
    obtain ⟨auth', hauth, rfl⟩ := Option.map_eq_some_iff.1 hstep
    rcases step_cases hauth with ⟨svc, node, heq, -⟩ | ⟨i', c', e₁, db', ph, set, heq, he₁, hm, rfl⟩
    · cases heq
    · cases heq
      rw [he] at he₁
      cases he₁
      dsimp only at he' hpw ⊢
      rw [List.getElem?_set_self (List.getElem?_eq_some_iff.1 he).1] at he'
      cases he'
      dsimp only at hret
      subst hret
      cases hm with
      | quiet hash login =>
        obtain ⟨email, pw', hlogin⟩ := login rfl
        cases hnode.symm.trans hlogin
      | @passwordSet userId' token' pw' hash uid revoke now n' db' node phase changed byId byToken =>
        rw [hnode] at node
        cases node
        have huid : uid = row.userId := by simpa using hpw
        subst huid
        rw [changed.sessions]
        refine mem_revoked hrow fun hlive => ?_
        exact decide_eq_true ⟨rfl, hlive⟩

/-- Once a `revoke_session` or a `set_password` with `revoke_sessions` has succeeded, no query of any later step accepts
a session that it was to revoke, nor the token of such a session. -/
theorem revoked_sessions_stay_out {E : SessionEnv} {db : Database} (hdb : SessionsOk db)
    {lastUsed : String → Option Int}
    {s₁ s₂ s₃ s₄ : SessionState} {a : SessionAction} {bs : List SessionAction}
    (hs : Reachable (sessionStep E) (initialSessions db lastUsed) s₁) (ha : sessionStep E s₁ a = some s₂)
    {row : Session} (hrow : row ∈ s₁.auth.db.sessions) (hrev : Revokes E s₁ a s₂ row)
    (hrun : run (sessionStep E) s₂ bs = some s₃) {i : Nat} {c : SessionChoice}
    (hstep : sessionStep E s₃ (.step i c) = some s₄) {token : String} {now : Int} {data : AuthData}
    (hacc : Accepts s₃ i s₄ token now data) : data.sessionID ≠ row.id ∧ E.hashToken token ≠ row.tokenHash := by
  obtain ⟨as, has⟩ := hs
  have hok₂ : SessionsOk s₂.auth.db :=
    sessionsOk_of_run (s := initialSessions db lastUsed) hdb (run_concat.2 ⟨s₁, has, ha⟩)
  have hok₃ := sessionsOk_of_run hok₂ hrun
  obtain ⟨row', hrow', hid, hhash, hne⟩ := hrev.revoked ha hrow
  obtain ⟨row'', hrow'', hb⟩ := becomes_of_run hrun hrow'
  have hgone : row''.revokedAt ≠ none := by
    rw [hb.revokedAt hne]
    exact hne
  obtain ⟨live, user, htoken, hlive, hdata⟩ := hacc.live hstep
  have hdiff : live ≠ row'' := fun h => hgone (h ▸ hlive.notRevoked)
  constructor
  · intro heq
    refine hdiff (List.inj_on_of_nodup_map hok₃.ids hlive.mem hrow'' ?_)
    rw [hb.id, hid, ← heq, hdata]
    rfl
  · intro heq
    refine hdiff (List.inj_on_of_nodup_map hok₃.hashes hlive.mem hrow'' ?_)
    rw [hb.tokenHash, hhash, ← heq, htoken]

/-- The session that Alice had before. -/
def aliceOldSession : Session := ⟨"s1", "u1", "session-hash", 100, none⟩

/-- Alice revokes that session from the new one: the steps up to the update. -/
def aliceRevokes : List SessionAction :=
  aliceLogsIn ++ [.call sessionService (.revokeSession "" "s1" ""), .step 2 (smoothAt 3)]

/-- A further request of Alice with the token of the new session, up to its query. -/
def aliceReturns : List SessionAction :=
  [.call sessionService (.request "first-token" ""), .step 3 (smoothAt 4)]

theorem revoked_sessions_stay_out_alice : ∃ s₁ s₂ s₃ s₄,
    run (sessionStep sessionEnv) (initialSessions sampleDatabase fun _ => none) aliceRevokes = some s₁ ∧
      sessionStep sessionEnv s₁ (.step 2 (smoothAt 3)) = some s₂ ∧
      Revokes sessionEnv s₁ (.step 2 (smoothAt 3)) s₂ aliceOldSession ∧
      run (sessionStep sessionEnv) s₂ aliceReturns = some s₃ ∧
      sessionStep sessionEnv s₃ (.step 3 (smoothAt 4)) = some s₄ ∧ Accepts s₃ 3 s₄ "first-token" 4 aliceData ∧
      aliceData.sessionID ≠ aliceOldSession.id ∧ sessionEnv.hashToken "first-token" ≠ aliceOldSession.tokenHash := by
  obtain ⟨s₁, hrun₁, h₁⟩ := exists_run (sessionStep sessionEnv) (initialSessions sampleDatabase fun _ => none)
    aliceRevokes (p := fun s => decide (aliceOldSession ∈ s.auth.db.sessions) &&
      s.callAt 2 (fun k => decide (k.node = .revokeSession "" "s1" "")) &&
      (run (sessionStep sessionEnv) s [.step 2 (smoothAt 3)]).any fun s =>
        s.callAt 2 (fun k => decide (k.phase =
          .returned (.revoked 1 (clearCookieObject sessionEnv sessionService)))) &&
        (run (sessionStep sessionEnv) s aliceReturns).any fun s =>
          s.callAt 3 (fun k => decide (k.phase = .querying "first-token" 4)) &&
          (run (sessionStep sessionEnv) s [.step 3 (smoothAt 4)]).any fun s =>
            s.callAt 3 fun k => decide (k.phase.accepted = some aliceData)) (by decide +kernel)
  simp only [Bool.and_eq_true] at h₁
  obtain ⟨⟨hrow, hcall⟩, h₁⟩ := h₁
  obtain ⟨k, hk, hnode⟩ := exists_callAt hcall
  obtain ⟨s₂, hrun₂, h₂⟩ := exists_run (sessionStep sessionEnv) s₁ [.step 2 (smoothAt 3)] h₁
  obtain ⟨hret, h₂⟩ := Bool.and_eq_true_iff.1 h₂
  obtain ⟨k', hk', hret⟩ := exists_callAt hret
  obtain ⟨s₃, hrun₃, h₃⟩ := exists_run (sessionStep sessionEnv) s₂ aliceReturns h₂
  obtain ⟨hquery, h₃⟩ := Bool.and_eq_true_iff.1 h₃
  obtain ⟨k₃, hk₃, hquery⟩ := exists_callAt hquery
  obtain ⟨s₄, hrun₄, h₄⟩ := exists_run (sessionStep sessionEnv) s₃ [.step 3 (smoothAt 4)] h₃
  obtain ⟨k₄, hk₄, haccepted⟩ := exists_callAt h₄
  obtain ⟨s₂', hstep₂, hnil⟩ := run_cons.1 hrun₂
  cases hnil
  obtain ⟨s₄', hstep₄, hnil⟩ := run_cons.1 hrun₄
  cases hnil
  have hrev : Revokes sessionEnv s₁ (.step 2 (smoothAt 3)) s₂ aliceOldSession :=
    .node 2 _ k k' "" "s1" "" 1 _ rfl hk (of_decide_eq_true hnode) hk' (of_decide_eq_true hret) rfl
  have hacc : Accepts s₃ 3 s₄ "first-token" 4 aliceData :=
    ⟨⟨k₃, hk₃, of_decide_eq_true hquery⟩, ⟨k₄, hk₄, of_decide_eq_true haccepted⟩⟩
  exact ⟨s₁, s₂, s₃, s₄, hrun₁, hstep₂, hrev, hrun₃, hstep₄, hacc,
    revoked_sessions_stay_out sampleDatabase_sessionsOk ⟨_, hrun₁⟩ hstep₂ (of_decide_eq_true hrow) hrev hrun₃ hstep₄
      hacc⟩

end Noda.Auth
