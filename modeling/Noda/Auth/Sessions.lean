import Noda.Auth.Effects
import Noda.Auth.Service

/-!
# Sessions

The nodes `auth.create_session` and `auth.revoke_session` and the session middleware with `AuthenticateSession`, on the
tables that the other auth nodes work on.  As there, any number of calls and executions share the tables, and a step
moves one of them past at most one statement; a call reads the clock before its statement, so other steps may come in
between.

The column `last_used_at` is kept beside the tables.  The constraints of the table `auth_sessions` are `SessionsOk`.
-/

namespace Noda.Auth

open Sql

/-- The functions outside of this model that the calls use beside those of the nodes: `parseRoles`, and the whole
seconds of a duration, which Go computes with floating point numbers. -/
structure SessionEnv extends Env where
  parseRoles : String → List String
  seconds : Int → Int

/-- A cookie for `response.json`. -/
structure CookieObject where
  name : String
  value : String
  path : String
  domain : String
  maxAge : Int
  secure : Bool
  httpOnly : Bool
  sameSite : String
  deriving DecidableEq

/-- `SessionCookieObject`. -/
def sessionCookieObject (E : SessionEnv) (svc : Configured) (rawToken : String) (ttl : Int) : CookieObject where
  name := svc.cookie.name
  value := rawToken
  path := svc.cookie.path
  domain := svc.cookie.domain
  maxAge := E.seconds ttl
  secure := svc.cookie.secure
  httpOnly := svc.cookie.httpOnly
  sameSite := svc.cookie.sameSite

/-- `ClearCookieObject`. -/
def clearCookieObject (E : SessionEnv) (svc : Configured) : CookieObject :=
  { sessionCookieObject E svc "" 0 with maxAge := -1 }

/-- `AuthData`; its claims have the same values once more. -/
structure AuthData where
  userID : String
  email : String
  emailVerified : Bool
  sessionID : String
  roles : List String
  deriving DecidableEq

/-- What `ClassifyOr` makes of a failed statement, as far as the middleware tells it apart. -/
inductive DbFault where
  | unavailable
  | timeout
  | other
  deriving DecidableEq

/-- What the middleware does with a request: it goes on, or it answers. -/
inductive Response where
  | next (data : AuthData)
  | answer (status : Nat) (message : String)
  deriving DecidableEq

/-- A call: a node with its resolved configuration, or a request with its session cookie and its header
`Authorization`. -/
inductive SessionNode where
  | createSession (userID : String) (ttl : Option String)
  | revokeSession (token sessionID userID : String)
  | request (cookie header : String)
  deriving DecidableEq

inductive SessionOutcome where
  | created (token sessionID : String) (expiresAt : Int) (cookie : CookieObject)
  | revoked (count : Nat) (clearCookie : CookieObject)
  | failed (message : String)
  | database (fault : DbFault) (op : String)
  | response (r : Response)
  deriving DecidableEq

/-- Where a call is: before its statement, or at its end.  `querying` has the clock that was read before. -/
inductive SessionPhase where
  | start
  | inserting (row : Session) (raw : String) (ttl : Int)
  | revoking (now : Int)
  | querying (token : String) (now : Int)
  | touching (data : AuthData) (now : Int)
  | returned (out : SessionOutcome)
  deriving DecidableEq

structure SessionCall where
  svc : Configured
  node : SessionNode
  phase : SessionPhase

/-- What the environment decides in a step: whether the statement fails, whether the services are registered, the
clock, and what is drawn at random. -/
structure SessionChoice where
  fails : Option DbFault
  misconfigured : Bool
  now : Int
  raw : Option String
  uuid : String

/-! ### `create_session` -/

/-- `INSERT INTO auth_sessions`; `none` is a violated constraint. -/
def Database.insertSession (db : Database) (row : Session) : Option Database :=
  if row.id ∉ db.sessions.map Session.id ∧ row.tokenHash ∉ db.sessions.map Session.tokenHash ∧
      row.userId ∈ db.users.map User.id then
    some { db with sessions := db.sessions ++ [row] }
  else none

variable (E : SessionEnv)

/-- `create_session` once its lifetime is known: the token, and the row to insert. -/
def mintSession (userID : String) (ttl : Int) (c : SessionChoice) : SessionPhase :=
  match c.raw with
  | none => .returned (.failed "auth.create_session: auth: generate token")
  | some raw => .inserting ⟨c.uuid, userID, E.hashToken raw, c.now + ttl, none⟩ raw ttl

/-- `create_session` before its statement. -/
def prepareCreateSession (svc : Configured) (userID : String) (ttl : Option String) (c : SessionChoice) :
    SessionPhase :=
  match ttl.filter (· ≠ "") with
  | none => mintSession E userID svc.sessionTTL c
  | some v =>
    match Duration.parse v with
    | none => .returned (.failed "auth.create_session: ttl")
    | some d => mintSession E userID d c

/-! ### `revoke_session` -/

/-- The condition of the update. -/
def revokedBy (token sessionID userID : String) (row : Session) : Bool :=
  row.revokedAt = none ∧
    if token ≠ "" then row.tokenHash = E.hashToken token
    else if sessionID ≠ "" then row.id = sessionID
    else row.userId = userID

/-- `revoke_session` before its statement. -/
def prepareRevokeSession (token sessionID userID : String) (c : SessionChoice) : SessionPhase :=
  if [token, sessionID, userID].countP (· ≠ "") ≠ 1 then
    .returned (.failed "auth.revoke_session: exactly one of 'token', 'session_id', 'user_id' is required")
  else .revoking c.now

/-! ### The middleware -/

/-- The token of a request. -/
def sessionToken (cookie header : String) : String :=
  if cookie ≠ "" then cookie
  else if "Bearer ".toList <+: header.toList then String.ofList (header.toList.drop 7)
  else ""

/-- The middleware before its query. -/
def prepareRequest (cookie header : String) (c : SessionChoice) : SessionPhase :=
  if c.misconfigured then .returned (.response (.answer 500 "auth misconfigured"))
  else if sessionToken cookie header = "" then .returned (.response (.answer 401 "invalid token"))
  else .querying (sessionToken cookie header) c.now

/-- The row of the query of `AuthenticateSession`: a live session and its active user. -/
def authQuery (db : Database) (hash : String) (now : Int) : Option (Session × User) :=
  db.sessions.findSome? fun row =>
    if row.tokenHash = hash ∧ row.revokedAt = none ∧ row.expiresAt > now then
      (db.users.find? fun u => u.id = row.userId ∧ u.status = "active").map (row, ·)
    else none

def authData (row : Session) (user : User) : AuthData where
  userID := user.id
  email := user.email
  emailVerified := user.emailVerifiedAt.isSome
  sessionID := row.id
  roles := E.parseRoles user.roles

/-- `lastUsedThrottle`: a minute. -/
def lastUsedThrottle : Int := 60 * 1000000000

/-- The answer to a request whose query has failed. -/
def faultAnswer : DbFault → Response
  | .unavailable => .answer 503 "service unavailable"
  | .timeout => .answer 504 "timeout"
  | .other => .answer 500 "internal error"

/-- What comes after the query. -/
def afterQuery (db : Database) (lastUsed : String → Option Int) (token : String) (now : Int) : SessionPhase :=
  match authQuery db (E.hashToken token) now with
  | none => .returned (.response (.answer 401 "invalid token"))
  | some (row, user) =>
    match lastUsed row.id with
    | some t =>
      if now - t > lastUsedThrottle then .touching (authData E row user) now
      else .returned (.response (.next (authData E row user)))
    | none => .touching (authData E row user) now

/-! ### The system -/

/-- A step of a call: the tables and the column `last_used_at` afterwards, and where it is. -/
def stepCall (db : Database) (lastUsed : String → Option Int) (k : SessionCall) (c : SessionChoice) :
    Option (Database × (String → Option Int) × SessionPhase) :=
  match k.node, k.phase with
  | .createSession userID ttl, .start => some (db, lastUsed, prepareCreateSession E k.svc userID ttl c)
  | .createSession _ _, .inserting row raw ttl =>
    match c.fails with
    | some fault => some (db, lastUsed, .returned (.database fault "auth.create_session"))
    | none =>
      match db.insertSession row with
      | none => some (db, lastUsed, .returned (.database .other "auth.create_session"))
      | some db' =>
        some (db', lastUsed,
          .returned (.created raw row.id row.expiresAt (sessionCookieObject E k.svc raw ttl)))
  | .revokeSession token sessionID userID, .start => some (db, lastUsed, prepareRevokeSession token sessionID userID c)
  | .revokeSession token sessionID userID, .revoking now =>
    match c.fails with
    | some fault => some (db, lastUsed, .returned (.database fault "auth.revoke_session"))
    | none =>
      some ({ db with sessions := update (revokedBy E token sessionID userID) (·.revoke now) db.sessions }, lastUsed,
        .returned (.revoked (affected (revokedBy E token sessionID userID) db.sessions) (clearCookieObject E k.svc)))
  | .request cookie header, .start => some (db, lastUsed, prepareRequest cookie header c)
  | .request _ _, .querying token now =>
    match c.fails with
    | some fault => some (db, lastUsed, .returned (.response (faultAnswer fault)))
    | none => some (db, lastUsed, afterQuery E db lastUsed token now)
  | .request _ _, .touching data now =>
    -- a failed touch does not fail the request
    some (db, if c.fails = none then Function.update lastUsed data.sessionID (some now) else lastUsed,
      .returned (.response (.next data)))
  | _, _ => none

/-- The auth nodes and the calls on one database. -/
structure SessionState where
  auth : State
  lastUsed : String → Option Int
  calls : List SessionCall

inductive SessionAction where
  | auth (a : Action)
  | call (svc : Configured) (node : SessionNode)
  | step (i : Nat) (c : SessionChoice)

/-- One step of the system. -/
def sessionStep (s : SessionState) : SessionAction → Option SessionState
  | .auth a => (step E.toEnv s.auth a).map fun auth => { s with auth }
  | .call svc node => some { s with calls := s.calls ++ [⟨svc, node, .start⟩] }
  | .step i c =>
    match s.calls[i]? with
    | none => none
    | some k =>
      (stepCall E s.auth.db s.lastUsed k c).map fun r =>
        { auth := { s.auth with db := r.1 }, lastUsed := r.2.1, calls := s.calls.set i { k with phase := r.2.2 } }

def initialSessions (db : Database) (lastUsed : String → Option Int) : SessionState := ⟨initial db, lastUsed, []⟩

/-! ### The tables -/

/-- The constraints of the table `auth_sessions`. -/
structure SessionsOk (db : Database) : Prop where
  ids : (db.sessions.map Session.id).Nodup
  hashes : (db.sessions.map Session.tokenHash).Nodup
  owners : ∀ row ∈ db.sessions, row.userId ∈ db.users.map User.id

/-- The row is the other one later on: at most it has been revoked, and for good. -/
structure Session.Becomes (row row' : Session) : Prop where
  id : row'.id = row.id
  userId : row'.userId = row.userId
  tokenHash : row'.tokenHash = row.tokenHash
  expiresAt : row'.expiresAt = row.expiresAt
  revokedAt : row.revokedAt ≠ none → row'.revokedAt = row.revokedAt

/-- What a step may do to the sessions: keep them, revoke some that are not, or add one. -/
inductive SessionsMove (db db' : Database) : Prop
  | kept (h : db'.sessions = db.sessions)
  | revoked (p : Session → Bool) (now : Int) (hp : ∀ row, p row = true → row.revokedAt = none)
      (h : db'.sessions = update p (·.revoke now) db.sessions)
  | added (row : Session) (hid : row.id ∉ db.sessions.map Session.id)
      (hhash : row.tokenHash ∉ db.sessions.map Session.tokenHash) (howner : row.userId ∈ db.users.map User.id)
      (h : db'.sessions = db.sessions ++ [row])

variable {E : SessionEnv} {db db' : Database} {s s' : SessionState} {row : Session}

theorem Session.Becomes.refl (row : Session) : row.Becomes row := ⟨rfl, rfl, rfl, rfl, fun _ => rfl⟩

theorem Session.Becomes.trans {row' row'' : Session} (h : row.Becomes row') (h' : row'.Becomes row'') :
    row.Becomes row'' where
  id := h'.id.trans h.id
  userId := h'.userId.trans h.userId
  tokenHash := h'.tokenHash.trans h.tokenHash
  expiresAt := h'.expiresAt.trans h.expiresAt
  revokedAt hne := by
    have hsame := h.revokedAt hne
    rw [← hsame] at hne ⊢
    exact h'.revokedAt hne

theorem Session.Becomes.live {row' : Session} (h : row.Becomes row') (hlive : row'.revokedAt = none) :
    row.revokedAt = none := by
  by_contra hne
  exact hne ((h.revokedAt hne).symm.trans hlive)

private theorem becomes_update {p : Session → Bool} {now : Int} (hp : p row = true → row.revokedAt = none) :
    row.Becomes (if p row then row.revoke now else row) := by
  by_cases hrow : p row = true
  · rw [if_pos hrow]
    exact ⟨rfl, rfl, rfl, rfl, fun hne => absurd (hp hrow) hne⟩
  · rw [if_neg hrow]
    exact .refl row

namespace SessionsMove

private theorem becomes (h : SessionsMove db db') (hrow : row ∈ db.sessions) :
    ∃ row' ∈ db'.sessions, row.Becomes row' := by
  cases h with
  | kept h => exact ⟨row, h ▸ hrow, .refl row⟩
  | revoked p now hp h =>
    refine ⟨if p row then row.revoke now else row, ?_, becomes_update (hp row)⟩
    rw [h]
    exact mem_update.2 ⟨row, hrow, rfl⟩
  | added new hid hhash howner h => exact ⟨row, h ▸ List.mem_append_left _ hrow, .refl row⟩

/-- Every session was there before, or it is the one that was added. -/
theorem origin (h : SessionsMove db db') {row' : Session} (hrow : row' ∈ db'.sessions) :
    (∃ row ∈ db.sessions, row.Becomes row') ∨ db'.sessions = db.sessions ++ [row'] := by
  cases h with
  | kept h => exact .inl ⟨row', h ▸ hrow, .refl row'⟩
  | revoked p now hp h =>
    rw [h] at hrow
    obtain ⟨row, hmem, rfl⟩ := mem_update.1 hrow
    exact .inl ⟨row, hmem, becomes_update (hp row)⟩
  | added new hid hhash howner h =>
    rw [h] at hrow
    rcases List.mem_append.1 hrow with hrow | hrow
    · exact .inl ⟨row', hrow, .refl row'⟩
    · rw [List.mem_singleton.1 hrow]
      exact .inr h

/-- The constraints are kept. -/
theorem ok (h : SessionsMove db db') (husers : db'.users.map User.id = db.users.map User.id) (hok : SessionsOk db) :
    SessionsOk db' := by
  cases h with
  | kept h => exact ⟨h ▸ hok.ids, h ▸ hok.hashes, by rw [h, husers]; exact hok.owners⟩
  | revoked p now hp h =>
    have hmap : ∀ {A : Type} (f : Session → A), (∀ row, f (row.revoke now) = f row) →
        db'.sessions.map f = db.sessions.map f := by
      intro A f hf
      rw [h, map_update hf]
    refine ⟨hmap Session.id (fun _ => rfl) ▸ hok.ids, hmap Session.tokenHash (fun _ => rfl) ▸ hok.hashes, ?_⟩
    intro row' hrow'
    have hmem : row'.userId ∈ db.sessions.map Session.userId := by
      rw [← hmap Session.userId fun _ => rfl]
      exact List.mem_map_of_mem hrow'
    obtain ⟨row, hrow, heq⟩ := List.mem_map.1 hmem
    rw [husers, ← heq]
    exact hok.owners row hrow
  | added new hid hhash howner h =>
    refine ⟨?_, ?_, ?_⟩
    · rw [h, List.map_append, List.nodup_append']
      exact ⟨hok.ids, List.nodup_singleton _, by simpa using hid⟩
    · rw [h, List.map_append, List.nodup_append']
      exact ⟨hok.hashes, List.nodup_singleton _, by simpa using hhash⟩
    · intro row' hrow'
      rw [h] at hrow'
      rw [husers]
      rcases List.mem_append.1 hrow' with hrow' | hrow'
      · exact hok.owners row' hrow'
      · rw [List.mem_singleton.1 hrow']
        exact howner

end SessionsMove

/-! ### What the steps do to the tables -/

/-- A step of the other auth nodes revokes the sessions of a user whose password it sets, or leaves them alone. -/
theorem Moved.sessions {e : Execution} {c : Choice} {ph : Phase} {set : List (String × String)}
    (h : Moved E.toEnv db e c db' ph set) :
    SessionsMove db db' ∧ db'.users.map User.id = db.users.map User.id := by
  cases h with
  | quiet hash login => exact ⟨.kept rfl, rfl⟩
  | upgraded node phase applied => exact ⟨.kept rfl, map_update fun _ => rfl⟩
  | @passwordSet userId token pw hash uid revoke now n db' node phase changed byId byToken =>
    refine ⟨?_, by rw [changed.users]; exact map_update fun _ => rfl⟩
    cases revoke with
    | false => exact .kept changed.sessions
    | true =>
      refine .revoked (·.liveOf uid) now (fun row hrow => ?_) changed.sessions
      exact (of_decide_eq_true hrow).2
  | consumed node phase mem claimable users sessions tokens =>
    refine ⟨.kept sessions, ?_⟩
    rw [users]
    split
    · exact map_update fun _ => rfl
    · rfl
  | invalidated node phase => exact ⟨.kept rfl, rfl⟩
  | inserted node phase inserted =>
    obtain ⟨husers, hsessions, -⟩ := insertToken_eq inserted
    exact ⟨.kept hsessions, by rw [husers]⟩

theorem insertSession_move (h : db.insertSession row = some db') :
    db'.sessions = db.sessions ++ [row] ∧ SessionsMove db db' ∧ db'.users = db.users := by
  unfold Database.insertSession at h
  split_ifs at h with hnew
  cases h
  exact ⟨rfl, .added row hnew.1 hnew.2.1 hnew.2.2 rfl, rfl⟩

/-- What `create_session` is to insert: the row of its user, with the hash of the token that it drew. -/
def NewSession (E : SessionEnv) (node : SessionNode) (row : Session) (raw : String) : Prop :=
  ∃ ttl, node = .createSession row.userId ttl ∧ row.tokenHash = E.hashToken raw ∧ row.revokedAt = none

/-- A phase that a call is in after its first step. -/
structure Prepared (E : SessionEnv) (node : SessionNode) (ph : SessionPhase) : Prop where
  inserting : ∀ row raw ttl, ph = .inserting row raw ttl → NewSession E node row raw
  querying : ∀ token now, ph = .querying token now →
    ∃ cookie header, node = .request cookie header ∧ token = sessionToken cookie header ∧ token ≠ ""
  touching : ∀ data now, ph ≠ .touching data now
  next : ∀ data, ph ≠ .returned (.response (.next data))
  revoked : ∀ count cookie, ph ≠ .returned (.revoked count cookie)

/-- What a step of a call does: the tables and its phase afterwards. -/
inductive CallMove (E : SessionEnv) (db : Database) (k : SessionCall) : Database → SessionPhase → Prop
  | prepared (ph : SessionPhase) (h : Prepared E k.node ph) : CallMove E db k db ph
  | inserted (row : Session) (raw : String) (ttl : Int) (out : SessionOutcome) (db' : Database)
      (hphase : k.phase = .inserting row raw ttl) (h : db.insertSession row = some db')
      (hout : Prepared E k.node (.returned out)) : CallMove E db k db' (.returned out)
  | revoked (token sessionID userID : String) (now : Int) (count : Nat) (cookie : CookieObject)
      (hnode : k.node = .revokeSession token sessionID userID) (hphase : k.phase = .revoking now) :
      CallMove E db k
        { db with sessions := update (revokedBy E token sessionID userID) (·.revoke now) db.sessions }
        (.returned (.revoked count cookie))
  | queried (token : String) (now : Int) (lastUsed : String → Option Int) (hphase : k.phase = .querying token now) :
      CallMove E db k db (afterQuery E db lastUsed token now)
  | touched (data : AuthData) (now : Int) (hphase : k.phase = .touching data now) :
      CallMove E db k db (.returned (.response (.next data)))

private theorem prepared_returned {node : SessionNode} {out : SessionOutcome}
    (hnext : ∀ data, out ≠ .response (.next data))
    (hrev : ∀ count cookie, out ≠ .revoked count cookie) : Prepared E node (.returned out) where
  inserting := nofun
  querying := nofun
  touching := nofun
  next data h := hnext data (SessionPhase.returned.inj h)
  revoked count cookie h := hrev count cookie (SessionPhase.returned.inj h)

private theorem prepared_mintSession (userID : String) (ttl : Option String) (d : Int) (c : SessionChoice) :
    Prepared E (.createSession userID ttl) (mintSession E userID d c) := by
  unfold mintSession
  split
  · exact prepared_returned nofun nofun
  · refine ⟨fun row raw' ttl' h => ?_, nofun, nofun, nofun, nofun⟩
    cases h
    exact ⟨ttl, rfl, rfl, rfl⟩

private theorem prepared_createSession (svc : Configured) (userID : String) (ttl : Option String) (c : SessionChoice) :
    Prepared E (.createSession userID ttl) (prepareCreateSession E svc userID ttl c) := by
  unfold prepareCreateSession
  split
  · exact prepared_mintSession userID ttl svc.sessionTTL c
  · split
    · exact prepared_returned nofun nofun
    · rename_i d _
      exact prepared_mintSession userID ttl d c

private theorem prepared_revokeSession (token sessionID userID : String) (c : SessionChoice) :
    Prepared E (.revokeSession token sessionID userID) (prepareRevokeSession token sessionID userID c) := by
  unfold prepareRevokeSession
  split
  · exact prepared_returned nofun nofun
  · exact ⟨nofun, nofun, nofun, nofun, nofun⟩

private theorem prepared_request (cookie header : String) (c : SessionChoice) :
    Prepared E (.request cookie header) (prepareRequest cookie header c) := by
  unfold prepareRequest
  split
  · exact prepared_returned nofun nofun
  · split
    · exact prepared_returned nofun nofun
    · rename_i hne
      refine ⟨nofun, fun token now h => ?_, nofun, nofun, nofun⟩
      cases h
      exact ⟨cookie, header, rfl, rfl, hne⟩

private theorem prepared_faultAnswer (node : SessionNode) (fault : DbFault) :
    Prepared E node (.returned (.response (faultAnswer fault))) := by
  cases fault with
  | unavailable => exact prepared_returned nofun nofun
  | timeout => exact prepared_returned nofun nofun
  | other => exact prepared_returned nofun nofun

private theorem stepCall_cases {lastUsed lastUsed' : String → Option Int} {k : SessionCall} {c : SessionChoice}
    {ph : SessionPhase} (h : stepCall E db lastUsed k c = some (db', lastUsed', ph)) : CallMove E db k db' ph := by
  unfold stepCall at h
  split at h
  · rename_i userID ttl hnode hphase
    cases h
    exact .prepared _ (hnode ▸ prepared_createSession k.svc userID ttl c)
  · rename_i userID ttl' row raw ttl hnode hphase
    split at h
    · cases h
      exact .prepared _ (prepared_returned nofun nofun)
    · split at h
      · cases h
        exact .prepared _ (prepared_returned nofun nofun)
      · rename_i hins
        cases h
        exact .inserted row raw ttl _ _ hphase hins (prepared_returned nofun nofun)
  · rename_i token sessionID userID hnode hphase
    cases h
    exact .prepared _ (hnode ▸ prepared_revokeSession token sessionID userID c)
  · rename_i token sessionID userID now hnode hphase
    split at h
    · cases h
      exact .prepared _ (prepared_returned nofun nofun)
    · cases h
      exact .revoked token sessionID userID now _ _ hnode hphase
  · rename_i cookie header hnode hphase
    cases h
    exact .prepared _ (hnode ▸ prepared_request cookie header c)
  · rename_i cookie header token now hnode hphase
    split at h
    · rename_i fault _
      cases h
      exact .prepared _ (prepared_faultAnswer k.node fault)
    · cases h
      exact .queried token now lastUsed hphase
  · rename_i cookie header data now hnode hphase
    cases h
    exact .touched data now hphase
  · cases h

theorem CallMove.tables {k : SessionCall} {ph : SessionPhase} (h : CallMove E db k db' ph) :
    SessionsMove db db' ∧ db'.users = db.users := by
  cases h with
  | prepared ph h => exact ⟨.kept rfl, rfl⟩
  | inserted row raw ttl out db' hphase h hout => exact (insertSession_move h).2
  | revoked token sessionID userID now count cookie hnode hphase =>
    exact ⟨.revoked _ _ (fun row hrow => (of_decide_eq_true hrow).1) rfl, rfl⟩
  | queried token now lastUsed hphase => exact ⟨.kept rfl, rfl⟩
  | touched data now hphase => exact ⟨.kept rfl, rfl⟩

theorem sessionStep_call {i : Nat} {c : SessionChoice} (h : sessionStep E s (.step i c) = some s') :
    ∃ k db' lastUsed' ph, s.calls[i]? = some k ∧ CallMove E s.auth.db k db' ph ∧
      s' = ⟨{ s.auth with db := db' }, lastUsed', s.calls.set i { k with phase := ph }⟩ := by
  simp only [sessionStep] at h
  cases hi : s.calls[i]? with
  | none =>
    rw [hi] at h
    cases h
  | some k =>
    rw [hi] at h
    obtain ⟨⟨db', lastUsed', ph⟩, hstep, rfl⟩ := Option.map_eq_some_iff.1 h
    exact ⟨k, db', lastUsed', ph, rfl, stepCall_cases hstep, rfl⟩

/-- Every step of the system keeps the sessions, revokes some of them or adds one, and keeps the users' ids. -/
theorem sessionStep_move {a : SessionAction} (h : sessionStep E s a = some s') :
    SessionsMove s.auth.db s'.auth.db ∧ s'.auth.db.users.map User.id = s.auth.db.users.map User.id := by
  cases a with
  | auth a =>
    obtain ⟨auth', hstep, rfl⟩ := Option.map_eq_some_iff.1 h
    rcases step_cases hstep with ⟨svc, node, -, rfl⟩ | ⟨i, c, e, db', ph, set, -, -, hm, rfl⟩
    · exact ⟨.kept rfl, rfl⟩
    · exact hm.sessions
  | call svc node =>
    cases h
    exact ⟨.kept rfl, rfl⟩
  | step i c =>
    obtain ⟨k, db', lastUsed', ph, -, hcall, rfl⟩ := sessionStep_call h
    obtain ⟨hmove, husers⟩ := hcall.tables
    exact ⟨hmove, by rw [husers]⟩

theorem sessionsOk_of_run {as : List SessionAction} (hok : SessionsOk s.auth.db)
    (h : Transition.run (sessionStep E) s as = some s') : SessionsOk s'.auth.db := by
  refine Transition.run_invariant (P := fun s => SessionsOk s.auth.db) (fun s a s' hs ha => ?_) hok h
  obtain ⟨hmove, husers⟩ := sessionStep_move ha
  exact hmove.ok husers hs

/-- A session is never deleted, and once revoked it stays so. -/
theorem becomes_of_run {as : List SessionAction} (h : Transition.run (sessionStep E) s as = some s')
    (hrow : row ∈ s.auth.db.sessions) : ∃ row' ∈ s'.auth.db.sessions, row.Becomes row' := by
  refine Transition.run_invariant (P := fun s => ∃ row' ∈ s.auth.db.sessions, row.Becomes row')
    (fun s a s' hs ha => ?_) ⟨row, hrow, .refl row⟩ h
  obtain ⟨row', hrow', hb⟩ := hs
  obtain ⟨row'', hrow'', hb'⟩ := (sessionStep_move ha).1.becomes hrow'
  exact ⟨row'', hrow'', hb.trans hb'⟩

end Noda.Auth
