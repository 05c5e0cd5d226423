import Noda.Auth.Crypto
import Noda.Auth.Database
import Noda.Lib.Duration
import Noda.Lib.Transition

/-!
# The auth nodes

The executors of `auth.verify_credentials`, `auth.set_password`, `auth.consume_token` and `auth.create_token`, after
their configuration has been resolved, as a transition system: any number of executions share the auth tables, and a
step moves one execution past at most one statement or one transaction.  What happens between two accesses to the
tables touches nothing shared and is part of the step before.

The environment chooses the clock, the random bytes, and which statements fail.  `passwords` is a ghost: the users and
passwords of the `set_password` executions that have committed, the newest first.  `VerifyDummy` only spends time and
is left out.
-/

namespace Noda.Auth

open Sql

def purposeVerifyEmail : String := "verify_email"

def purposeResetPassword : String := "reset_password"

/-- `validPurpose`. -/
def validPurpose (p : String) : Bool := p = purposeVerifyEmail ∨ p = purposeResetPassword

/-- `Service`, as far as the nodes read it. -/
structure Service where
  argon : ArgonParams
  tokenTTLs : List (String × Int)

/-- `TokenTTL`: an hour unless configured otherwise. -/
def Service.tokenTTL (svc : Service) (purpose : String) : Int :=
  (svc.tokenTTLs.lookup purpose).getD (60 * 60 * 1000000000)

/-- `validatePassword`: its error, if any. -/
def validatePassword (pw : String) : Option String :=
  if pw.length < 8 then some "auth: password must be at least 8 characters"
  else if pw.length > 512 then some "auth: password must be at most 512 characters"
  else none

/-- The functions the nodes call outside of this model: the key derivations, `HashToken` and `normalizeEmail`. -/
structure Env where
  crypto : Primitives
  hashToken : String → String
  normalizeEmail : String → String

/-- The errors inside a transaction. -/
inductive TxError where
  | sql
  | consumedTokenRowDisappeared
  | userNotFound
  | revokeSessions
  | markVerified
  deriving DecidableEq, Repr

/-- The errors of the nodes; `database` is `dberr.ClassifyOr`. -/
inductive NodeError where
  | message (text : String)
  | database (resource op : String) (cause : TxError)
  | panicked
  deriving DecidableEq, Repr

/-- `userView`: the row without its hash. -/
structure UserView where
  id : String
  email : String
  emailVerifiedAt : Option Int
  status : String
  roles : String
  metadata : String
  createdAt : Int
  updatedAt : Int
  deriving DecidableEq, Repr

def userView (row : User) : UserView where
  id := row.id
  email := row.email
  emailVerifiedAt := row.emailVerifiedAt
  status := row.status
  roles := row.roles
  metadata := row.metadata
  createdAt := row.createdAt
  updatedAt := row.updatedAt

/-- The data of a `success` output. -/
inductive Data where
  | user (view : UserView)
  | revokedSessions (n : Nat)
  | userId (id : String)
  | token (raw : String) (expiresAt : Int)
  deriving DecidableEq, Repr

/-- What an execution returns. -/
inductive Outcome where
  | success (data : Data)
  | invalid
  | error (e : NodeError)
  deriving DecidableEq, Repr

/-- A node with its resolved configuration. -/
inductive Node where
  | verifyCredentials (email password : String)
  | setPassword (userId token : Option String) (password : String) (revoke : Bool)
  | consumeToken (token purpose : String)
  | createToken (userId purpose : String) (ttl : Option String)
  deriving DecidableEq, Repr

/-- Where an execution is: before it touches the tables, before the upgrade of a hash, before the transaction of
`set_password` or `consume_token`, before the two statements of `create_token`, or at its end. -/
inductive Phase where
  | start
  | upgrading (row : User) (hash : String)
  | setting (hash : String) (now : Int)
  | consuming (now : Int)
  | invalidating (ttl now : Int)
  | inserting (ttl now : Int)
  | returned (out : Outcome)
  deriving DecidableEq, Repr

/-- An execution of a node. -/
structure Execution where
  svc : Service
  node : Node
  phase : Phase

/-- What the environment decides in a step: whether the statement fails, the random bytes (`none` is an error), the
clock, the token and id drawn, and the faults of the transaction. -/
structure Choice where
  fails : Bool
  random : Option (Nat → UInt8)
  now : Int
  raw : Option String
  uuid : String
  faults : Faults

/-- A step in which nothing fails. -/
def Choice.smooth (now : Int) : Choice where
  fails := false
  random := some fun _ => 0
  now := now
  raw := none
  uuid := ""
  faults := ⟨false, [], false⟩

/-- The salt of `HashPassword`. -/
def drawSalt (argon : ArgonParams) (random : Nat → UInt8) : List UInt8 := (List.range argon.saltLen.toNat).map random

variable (E : Env)

/-! ### `verify_credentials` -/

/-- `verify_credentials` after it has read the row. -/
def checkCredentials (svc : Service) (password : String) (row : User) (c : Choice) : Phase :=
  match verifyPassword E.crypto svc.argon password row.passwordHash with
  | none => .returned (.error .panicked)
  | some (.error _) => .returned .invalid
  | some (.ok (false, _)) => .returned .invalid
  | some (.ok (true, needsRehash)) =>
    if row.status ≠ "active" then .returned .invalid
    else if needsRehash then
      match c.random with
      | none => .returned (.success (.user (userView row)))
      | some random =>
        match hashPassword E.crypto svc.argon (drawSalt svc.argon random) password with
        | none => .returned (.error .panicked)
        | some hash => .upgrading row hash
    else .returned (.success (.user (userView row)))

/-- The first step of `verify_credentials`. -/
def verifyCredentials (svc : Service) (email password : String) (db : Database) (c : Choice) : Phase :=
  if c.fails then .returned (.error (.database "user" "auth.verify_credentials" .sql))
  else
    match db.users.find? (·.email = E.normalizeEmail email) with
    | none => .returned .invalid
    | some row => checkCredentials E svc password row c

/-! ### `set_password` and `consume_token` -/

/-- The condition of the update in `consumeTokenInTx`. -/
def Token.claimable (hash purpose : String) (now : Int) (t : Token) : Bool :=
  t.tokenHash = hash ∧ t.purpose = purpose ∧ t.consumedAt = none ∧ t.expiresAt > now

/-- `consumeTokenInTx`: the owner of the token, or `none` if it is invalid. -/
def consumeTokenInTx (hash purpose : String) (now : Int) : Tx Database TxError (Option String) := do
  let rows ← statement .sql fun db => db.consumeTokens (·.claimable hash purpose now) now
  if rows = 0 then return none
  else
    let userId ← statement .sql fun db => (db.tokenOwner hash, db)
    if userId = "" then throw .consumedTokenRowDisappeared else return some userId

/-- The part of the transaction of `set_password` after the user is known: the user and the number of sessions
revoked. -/
def changePassword (uid hash : String) (revoke : Bool) (now : Int) : Tx Database TxError (String × Nat) := do
  let rows ← statement .sql fun db => db.setPasswordHash uid hash now
  if rows = 0 then throw .userNotFound
  else if revoke then
    let revoked ← statement .revokeSessions fun db => db.revokeSessions uid now
    return (uid, revoked)
  else return (uid, 0)

/-- The transaction of `set_password`; `none` is an invalid token. -/
def setPasswordTx (userId token : Option String) (hash : String) (revoke : Bool) (now : Int) :
    Tx Database TxError (Option (String × Nat)) :=
  match token with
  | none => some <$> changePassword (userId.getD "") hash revoke now
  | some token => do
    match ← consumeTokenInTx (E.hashToken token) purposeResetPassword now with
    | none => return none
    | some uid => some <$> changePassword uid hash revoke now

/-- The transaction of `consume_token`: the owner, or `none` if the token is invalid. -/
def consumeTx (token purpose : String) (now : Int) : Tx Database TxError (Option String) := do
  match ← consumeTokenInTx (E.hashToken token) purpose now with
  | none => return none
  | some userId =>
    if purpose = purposeVerifyEmail then
      let _ ← statement .markVerified fun db => db.markVerified userId now
      return some userId
    else return some userId

/-- `set_password` before its transaction. -/
def prepareSetPassword (svc : Service) (userId token : Option String) (password : String) (c : Choice) : Phase :=
  if userId.isSome = token.isSome then
    .returned (.error (.message "auth.set_password: exactly one of user_id or token must be set"))
  else
    match validatePassword password with
    | some err => .returned (.error (.message ("auth.set_password: " ++ err)))
    | none =>
      match c.random with
      | none => .returned (.error (.message "auth.set_password: auth: generate salt"))
      | some random =>
        match hashPassword E.crypto svc.argon (drawSalt svc.argon random) password with
        | none => .returned (.error .panicked)
        | some hash => .setting hash c.now

/-- `consume_token` before its transaction. -/
def prepareConsumeToken (purpose : String) (c : Choice) : Phase :=
  if validPurpose purpose then .consuming c.now
  else .returned (.error (.message ("auth.consume_token: invalid purpose \"" ++ purpose ++ "\"")))

/-! ### `create_token` -/

/-- `create_token` before its first statement. -/
def prepareCreateToken (svc : Service) (purpose : String) (ttl : Option String) (c : Choice) : Phase :=
  if validPurpose purpose then
    match ttl.filter (· ≠ "") with
    | none => .invalidating (svc.tokenTTL purpose) c.now
    | some v =>
      match Duration.parse v with
      | none => .returned (.error (.message "auth.create_token: ttl"))
      | some d => .invalidating d c.now
  else .returned (.error (.message ("auth.create_token: invalid purpose \"" ++ purpose ++ "\"")))

/-- The condition of the update that invalidates earlier tokens. -/
def Token.openFor (userId purpose : String) (t : Token) : Bool :=
  t.userId = userId ∧ t.purpose = purpose ∧ t.consumedAt = none

/-- The row `create_token` inserts. -/
def mintedToken (userId purpose raw : String) (ttl now : Int) (uuid : String) : Token where
  id := uuid
  userId := userId
  purpose := purpose
  tokenHash := E.hashToken raw
  expiresAt := now + ttl
  consumedAt := none
  createdAt := now

/-- The second statement of `create_token`. -/
def insertMinted (db : Database) (userId purpose : String) (ttl now : Int) (c : Choice) : Database × Phase :=
  match c.raw with
  | none => (db, .returned (.error (.message "auth.create_token: auth: generate token")))
  | some raw =>
    match if c.fails then none else db.insertToken (mintedToken E userId purpose raw ttl now c.uuid) with
    | none => (db, .returned (.error (.database "token" "auth.create_token" .sql)))
    | some db' => (db', .returned (.success (.token raw (now + ttl))))

/-! ### The system -/

/-- What a transaction returns to its node. -/
def txOutcome {A : Type} (resource op : String) (data : A → Data) : Except TxError (Option A) → Outcome
  | .error err => .error (.database resource op err)
  | .ok none => .invalid
  | .ok (some a) => .success (data a)

/-- The passwords a transaction of `set_password` has set. -/
def passwordsSet (password : String) : Except TxError (Option (String × Nat)) → List (String × String)
  | .ok (some (uid, _)) => [(uid, password)]
  | _ => []

/-- A step of an execution: the tables afterwards, where it is, and the passwords set. -/
def stepExecution (db : Database) (e : Execution) (c : Choice) : Option (Database × Phase × List (String × String)) :=
  match e.node, e.phase with
  | .verifyCredentials email password, .start => some (db, verifyCredentials E e.svc email password db c, [])
  | .verifyCredentials _ _, .upgrading row hash =>
    -- best effort: a failure of the upgrade does not fail the login
    some (if c.fails then db else (db.setPasswordHash row.id hash c.now).2,
      .returned (.success (.user (userView row))), [])
  | .setPassword userId token password _, .start => some (db, prepareSetPassword E e.svc userId token password c, [])
  | .setPassword userId token password revoke, .setting hash now =>
    let r := transaction .sql (setPasswordTx E userId token hash revoke now) c.faults db
    some (r.2, .returned (txOutcome "user" "auth.set_password" (fun a => .revokedSessions a.2) r.1),
      passwordsSet password r.1)
  | .consumeToken _ purpose, .start => some (db, prepareConsumeToken purpose c, [])
  | .consumeToken token purpose, .consuming now =>
    let r := transaction .sql (consumeTx E token purpose now) c.faults db
    some (r.2, .returned (txOutcome "token" "auth.consume_token" .userId r.1), [])
  | .createToken _ purpose ttl, .start => some (db, prepareCreateToken e.svc purpose ttl c, [])
  | .createToken userId purpose _, .invalidating ttl now =>
    if c.fails then some (db, .returned (.error (.database "token" "auth.create_token" .sql)), [])
    else some ((db.consumeTokens (·.openFor userId purpose) now).2, .inserting ttl now, [])
  | .createToken userId purpose _, .inserting ttl now =>
    let r := insertMinted E db userId purpose ttl now c
    some (r.1, r.2, [])
  | _, _ => none

/-- The tables and the executions on them. -/
structure State where
  db : Database
  executions : List Execution
  passwords : List (String × String)

/-- What may happen next. -/
inductive Action where
  | execute (svc : Service) (node : Node)
  | step (i : Nat) (c : Choice)

/-- One step of the system. -/
def step (s : State) : Action → Option State
  | .execute svc node => some { s with executions := s.executions ++ [⟨svc, node, .start⟩] }
  | .step i c =>
    match s.executions[i]? with
    | none => none
    | some e =>
      (stepExecution E s.db e c).map fun r =>
        { db := r.1, executions := s.executions.set i { e with phase := r.2.1 }, passwords := r.2.2 ++ s.passwords }

/-- No execution has started. -/
def initial (db : Database) : State := ⟨db, [], []⟩

/-! ### A sample -/

/-- `argon2.IDKey` for two passwords and a salt of eight zero bytes, with eight KiB of memory and one thread. -/
def sampleKey (pw : String) (time : UInt32) : Option (List UInt8) :=
  if pw = "old password" then if time = 1 then some [189, 15, 170, 121] else some [221, 222, 143, 235]
  else if pw = "new password" then if time = 1 then some [176, 132, 194, 32] else some [43, 25, 142, 95]
  else none

/-- Key derivations that are those of the package on the sample, for one and two iterations. -/
def samplePrimitives : Primitives where
  idKey pw salt time memory threads keyLen :=
    if time = 0 ∨ threads = 0 then none
    else if salt = List.replicate 8 0 ∧ memory = 8 ∧ threads = 1 ∧ keyLen = 4 ∧ time ≤ 2 then sampleKey pw time
    else some (List.replicate keyLen.toNat 0)
  length_idKey := by
    intro pw salt time memory threads keyLen key h
    split_ifs at h with h0 hs
    · obtain ⟨-, -, -, rfl, -⟩ := hs
      unfold sampleKey at h
      split_ifs at h
      all_goals cases h; rfl
    · cases h
      simp
  compareHashAndPassword _ _ := .failed

/-- `HashToken` of two tokens, and an email without spaces at its ends. -/
def sampleEnv : Env where
  crypto := samplePrimitives
  hashToken raw :=
    if raw = "reset-token" then "7c18b43a1d8227cddb332e67971e790ce35ac2303f4fccfb2a565622f2fe1cec"
    else if raw = "verify-token" then "458ba985765983a9f2054fa2073b5e80e253c3e842266cbf6f10310945c374be"
    else raw
  normalizeEmail email := email.toLower

/-- A service that was configured with more iterations than before. -/
def sampleService : Service where
  argon := { memoryKiB := 8, iterations := 2, saltLen := 8, keyLen := 4, parallelism := 1 }
  tokenTTLs := []

/-- Alice's password is stored under the parameters from before; she has a live session and two tokens. -/
def sampleDatabase : Database where
  users := [⟨"u1", "alice@example.com", "$argon2id$v=19$m=8,t=1,p=1$AAAAAAAAAAA$vQ+qeQ", none, "active", "[]",
    "\x7b\x7d", 0, 0⟩]
  sessions := [⟨"s1", "u1", "session-hash", 100, none⟩]
  tokens := [⟨"t1", "u1", "reset_password", "7c18b43a1d8227cddb332e67971e790ce35ac2303f4fccfb2a565622f2fe1cec",
    50, none,
    0⟩, ⟨"t2", "u1", "verify_email", "458ba985765983a9f2054fa2073b5e80e253c3e842266cbf6f10310945c374be", 50, none, 0⟩]
  users_nodup := by decide
  tokens_nodup := by decide
  owners := by decide

end Noda.Auth
