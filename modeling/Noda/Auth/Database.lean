import Noda.Lib.Sql

/-!
# The auth tables

The tables `auth_users`, `auth_sessions` and `auth_tokens` and the statements the auth nodes execute on them.  The
constraints of the schema are part of `Database`: ids and token hashes are unique, and every token has an owner.  Times
are numbers; `none` is `NULL`.
-/

namespace Noda.Auth

open Sql

/-- A row of `auth_users`. -/
structure User where
  id : String
  email : String
  passwordHash : String
  emailVerifiedAt : Option Int
  status : String
  roles : String
  metadata : String
  createdAt : Int
  updatedAt : Int
  deriving DecidableEq, Repr

/-- A row of `auth_sessions`, as far as the nodes read it. -/
structure Session where
  id : String
  userId : String
  tokenHash : String
  expiresAt : Int
  revokedAt : Option Int
  deriving DecidableEq, Repr

/-- A row of `auth_tokens`. -/
structure Token where
  id : String
  userId : String
  purpose : String
  tokenHash : String
  expiresAt : Int
  consumedAt : Option Int
  createdAt : Int
  deriving DecidableEq, Repr

def User.withHash (hash : String) (now : Int) (u : User) : User := { u with passwordHash := hash, updatedAt := now }

def User.verified (now : Int) (u : User) : User := { u with emailVerifiedAt := some now, updatedAt := now }

def Token.consume (now : Int) (t : Token) : Token := { t with consumedAt := some now }

def Session.revoke (now : Int) (s : Session) : Session := { s with revokedAt := some now }

def Session.liveOf (userId : String) (s : Session) : Bool := s.userId = userId ∧ s.revokedAt = none

/-- The auth tables, with the constraints of their schema. -/
@[ext] structure Database where
  users : List User
  sessions : List Session
  tokens : List Token
  users_nodup : (users.map User.id).Nodup
  tokens_nodup : (tokens.map Token.tokenHash).Nodup
  owners : ∀ t ∈ tokens, t.userId ∈ users.map User.id

namespace Database

/-- `UPDATE auth_users SET … WHERE id = ?`, which keeps the id. -/
def updateUser (db : Database) (id : String) (f : User → User) (hf : ∀ u, (f u).id = u.id) : Nat × Database :=
  (affected (·.id = id) db.users,
    { db with
      users := update (·.id = id) f db.users
      users_nodup := by rw [map_update hf]; exact db.users_nodup
      owners := by rw [map_update hf]; exact db.owners })

/-- `UPDATE auth_users SET password_hash = ?, updated_at = ? WHERE id = ?`. -/
def setPasswordHash (db : Database) (id hash : String) (now : Int) : Nat × Database :=
  db.updateUser id (·.withHash hash now) fun _ => rfl

/-- `UPDATE auth_users SET email_verified_at = ?, updated_at = ? WHERE id = ?`. -/
def markVerified (db : Database) (id : String) (now : Int) : Nat × Database :=
  db.updateUser id (·.verified now) fun _ => rfl

/-- `UPDATE auth_sessions SET revoked_at = ? WHERE user_id = ? AND revoked_at IS NULL`. -/
def revokeSessions (db : Database) (userId : String) (now : Int) : Nat × Database :=
  (affected (·.liveOf userId) db.sessions,
    { db with sessions := update (·.liveOf userId) (·.revoke now) db.sessions })

/-- `UPDATE auth_tokens SET consumed_at = ? WHERE p`. -/
def consumeTokens (db : Database) (p : Token → Bool) (now : Int) : Nat × Database :=
  (affected p db.tokens,
    { db with
      tokens := update p (·.consume now) db.tokens
      tokens_nodup := by rw [map_update (f := Token.consume now) fun _ => rfl]; exact db.tokens_nodup
      owners := by
        intro t ht
        obtain ⟨t₀, ht₀, rfl⟩ := mem_update.1 ht
        have ho := db.owners t₀ ht₀
        split_ifs
        · exact ho
        · exact ho })

/-- `SELECT user_id FROM auth_tokens WHERE token_hash = ?`; no row leaves the destination empty. -/
def tokenOwner (db : Database) (hash : String) : String :=
  ((db.tokens.find? (·.tokenHash = hash)).map Token.userId).getD ""

/-- `INSERT INTO auth_tokens`; `none` is a violated constraint. -/
def insertToken (db : Database) (t : Token) : Option Database :=
  if h : t.tokenHash ∉ db.tokens.map Token.tokenHash ∧ t.userId ∈ db.users.map User.id then
    some { db with
      tokens := db.tokens ++ [t]
      tokens_nodup := by
        rw [List.map_append, List.nodup_append']
        exact ⟨db.tokens_nodup, List.nodup_singleton _, by simpa using h.1⟩
      owners := by
        intro t' ht'
        rcases List.mem_append.1 ht' with ht' | ht'
        · exact db.owners t' ht'
        · rw [List.mem_singleton.1 ht']
          exact h.2 }
  else none

theorem token_unique (db : Database) {t t' : Token} (ht : t ∈ db.tokens) (ht' : t' ∈ db.tokens)
    (h : t.tokenHash = t'.tokenHash) : t = t' :=
  List.inj_on_of_nodup_map db.tokens_nodup ht ht' h

theorem tokenOwner_of_mem {db : Database} {t : Token} (ht : t ∈ db.tokens) : db.tokenOwner t.tokenHash = t.userId := by
  cases hf : db.tokens.find? (·.tokenHash = t.tokenHash) with
  | none => exact absurd (List.find?_eq_none.1 hf t ht) (by simp)
  | some t' =>
    have heq : t' = t := db.token_unique (List.mem_of_find?_eq_some hf) ht (by simpa using List.find?_some hf)
    rw [tokenOwner, hf, heq]
    rfl

end Database

end Noda.Auth
