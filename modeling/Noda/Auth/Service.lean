import Noda.Auth.Nodes
import Noda.Config.Resolved
import Noda.Lib.Duration
import Mathlib.Algebra.Order.Field.Rat

/-!
# The config of the auth service

`newService` reads the numbers for argon2id as `float64`s and converts the positive ones to the fixed-width integers of
`ArgonParams`.  Such a conversion discards the fraction; what it yields for a number that the type cannot hold depends
on the implementation (`Conversions`), and usually the low bits are kept (`lowBits`).

Nothing checks the converted numbers.  A positive number of iterations or threads may become zero, and then no password
can be hashed: `argon2.IDKey` panics.  `newService_hashesRight_iff`: that is the only way in which hashing and verifying
can go wrong.
-/

namespace Noda.Auth

open Config

/-- The conversions of a `float64` to `uint32` and `uint8`. -/
structure Conversions where
  u32 : Rat → UInt32
  u8 : Rat → UInt8
  toNat_u32 : ∀ f, 0 ≤ f → f < 2 ^ 32 → (u32 f).toNat = f.floor.toNat
  toNat_u8 : ∀ f, 0 ≤ f → f < 2 ^ 8 → (u8 f).toNat = f.floor.toNat

structure CookieConfig where
  name : String
  path : String
  domain : String
  sameSite : String
  secure : Bool
  httpOnly : Bool
  deriving DecidableEq, Repr

/-- `Service`, as it is configured. -/
structure Configured extends Service where
  databaseName : String
  sessionTTL : Int
  cookie : CookieConfig

/-- The errors of `newService`; a text that is no duration is wrapped. -/
inductive ServiceError where
  | noDatabase
  | sessionTTL (value : String)
  | tokenTTL (key value : String)
  deriving DecidableEq, Repr

def defaultArgonParams : ArgonParams :=
  { memoryKiB := 65536, iterations := 3, parallelism := 2, saltLen := 16, keyLen := 32 }

def hour : Int := 60 * 60 * 1000000000

/-- `m[key].(float64)`. -/
def numField (m : AnyMap) (key : String) : Option Rat :=
  (m.lookup key).bind fun
    | .num f => some f
    | _ => none

/-- `m[key].(bool)`, with the value before. -/
def boolField (m : AnyMap) (key : String) (before : Bool) : Bool :=
  match m.lookup key with
  | some (.bool b) => b
  | _ => before

/-- `m[key].(string)` unless it is empty, with the value before. -/
def nonEmptyField (m : AnyMap) (key before : String) : String :=
  match strField m key with
  | some v => if v ≠ "" then v else before
  | none => before

/-- `setU32` and its like for `uint8`. -/
def setNumber {α : Type} (convert : Rat → α) (ar : AnyMap) (key : String) (before : α) : α :=
  match numField ar key with
  | some f => if 0 < f then convert f else before
  | none => before

def setCookie (ck : AnyMap) (cookie : CookieConfig) : CookieConfig where
  name := nonEmptyField ck "name" cookie.name
  path := nonEmptyField ck "path" cookie.path
  domain := (strField ck "domain").getD cookie.domain
  sameSite := nonEmptyField ck "same_site" cookie.sameSite
  secure := boolField ck "secure" cookie.secure
  httpOnly := boolField ck "http_only" cookie.httpOnly

def setArgon (cvt : Conversions) (ar : AnyMap) (p : ArgonParams) : ArgonParams where
  memoryKiB := setNumber cvt.u32 ar "memory_kib" p.memoryKiB
  iterations := setNumber cvt.u32 ar "iterations" p.iterations
  saltLen := setNumber cvt.u32 ar "salt_len" p.saltLen
  keyLen := setNumber cvt.u32 ar "key_len" p.keyLen
  parallelism := setNumber cvt.u8 ar "parallelism" p.parallelism

/-- A duration of the config, if it is given. -/
def durationField (m : AnyMap) (key : String) (err : String → ServiceError) (before : Int) :
    Except ServiceError Int :=
  match strField m key with
  | none => .ok before
  | some v =>
    match Duration.parse v with
    | none => .error (err v)
    | some d => .ok d

/-- The parameters of the service. -/
def argonOf (cvt : Conversions) (config : AnyMap) : ArgonParams :=
  match mapField config "argon2" with
  | some ar => setArgon cvt ar defaultArgonParams
  | none => defaultArgonParams

def defaultCookie : CookieConfig := ⟨"noda_session", "/", "", "Lax", true, true⟩

def newService (cvt : Conversions) (config : AnyMap) : Except ServiceError Configured := do
  let dbName := (strField config "database").getD ""
  if dbName = "" then throw .noDatabase
  let sess := (mapField config "session").getD ∅
  let sessionTTL ← durationField sess "ttl" .sessionTTL (720 * hour)
  let cookie :=
    match mapField sess "cookie" with
    | some ck => setCookie ck defaultCookie
    | none => defaultCookie
  let argon := argonOf cvt config
  let tokens := (mapField config "tokens").getD ∅
  let verifyEmail ← durationField tokens "verify_email_ttl" (.tokenTTL "verify_email_ttl") (24 * hour)
  let resetPassword ← durationField tokens "reset_password_ttl" (.tokenTTL "reset_password_ttl") hour
  return {
    argon := argon
    tokenTTLs := [(purposeVerifyEmail, verifyEmail), (purposeResetPassword, resetPassword)]
    databaseName := dbName
    sessionTTL := sessionTTL
    cookie := cookie }

/-! ### Hashing with the parameters -/

/-- `argon2.IDKey` panics exactly without an iteration or without a thread. -/
structure Argon extends Primitives where
  idKey_eq_none : ∀ pw salt time memory threads keyLen,
    idKey pw salt time memory threads keyLen = none ↔ time = 0 ∨ threads = 0

section

variable (C : Argon) (cvt : Conversions)

/-- What hashing and verifying with the parameters promise.  The salt is what was drawn. -/
structure HashesRight (argon : ArgonParams) : Prop where
  /-- `argon2.IDKey` is called with an iteration and with a thread -/
  called : 0 < argon.iterations ∧ 0 < argon.parallelism
  verifies : ∀ salt pw, salt.length = argon.saltLen.toNat →
    ∃ hash, hashPassword C.toPrimitives argon salt pw = some hash ∧
      verifyPassword C.toPrimitives argon pw hash = some (.ok (true, false))
  rehashes : ∀ config svc, newService cvt config = .ok svc → ∀ salt pw hash, salt.length = svc.argon.saltLen.toNat →
    hashPassword C.toPrimitives svc.argon salt pw = some hash →
    verifyPassword C.toPrimitives argon pw hash = some (.ok (true, decide (svc.argon ≠ argon)))

/-- The number at a field of `argon2`. -/
def argonNumber (config : AnyMap) (key : String) : Option Rat :=
  (mapField config "argon2").bind fun ar => numField ar key

/-- A positive number of iterations or of threads is not converted to zero. -/
def StaysPositive (config : AnyMap) : Prop :=
  (∀ f ∈ argonNumber config "iterations", 0 < f → cvt.u32 f ≠ 0) ∧
    ∀ f ∈ argonNumber config "parallelism", 0 < f → cvt.u8 f ≠ 0

variable {C cvt} {config : AnyMap} {svc : Configured}

private theorem argon_newService (h : newService cvt config = .ok svc) : svc.argon = argonOf cvt config := by
  unfold newService at h
  simp only [bind, Except.bind, pure, Except.pure, throw, throwThe, MonadExceptOf.throw] at h
  split_ifs at h
  cases hsession : durationField ((mapField config "session").getD ∅) "ttl" .sessionTTL (720 * hour) with
  | error err =>
    rw [hsession] at h
    cases h
  | ok sessionTTL =>
    rw [hsession] at h
    cases hverify : durationField ((mapField config "tokens").getD ∅) "verify_email_ttl" (.tokenTTL "verify_email_ttl")
        (24 * hour) with
    | error err =>
      rw [hverify] at h
      cases h
    | ok verifyEmail =>
      rw [hverify] at h
      cases hreset : durationField ((mapField config "tokens").getD ∅) "reset_password_ttl"
          (.tokenTTL "reset_password_ttl") hour with
      | error err =>
        rw [hreset] at h
        cases h
      | ok resetPassword =>
        rw [hreset] at h
        cases h
        rfl

private theorem setNumber_ne_zero {α : Type} {convert : Rat → α} {ar : AnyMap} {key : String} {before zero : α}
    (hbefore : before ≠ zero) :
    setNumber convert ar key before ≠ zero ↔ ∀ f ∈ numField ar key, 0 < f → convert f ≠ zero := by
  unfold setNumber
  cases numField ar key with
  | none => simp [hbefore]
  | some f =>
    by_cases hf : 0 < f
    · simp [hf]
    · simp [hf, hbefore]

private theorem staysPositive_iff (config : AnyMap) :
    StaysPositive cvt config ↔ (argonOf cvt config).iterations ≠ 0 ∧ (argonOf cvt config).parallelism ≠ 0 := by
  unfold StaysPositive argonNumber argonOf
  cases mapField config "argon2" with
  | none => simp [defaultArgonParams]
  | some ar =>
    simp only [Option.bind_some, setArgon]
    rw [setNumber_ne_zero (by decide), setNumber_ne_zero (by decide)]

/-- Hashing and verifying go right exactly if no positive number of iterations or of threads becomes zero. -/
theorem newService_hashesRight_iff (C : Argon) (h : newService cvt config = .ok svc) :
    HashesRight C cvt svc.argon ↔ StaysPositive cvt config := by
  rw [staysPositive_iff, ← argon_newService h]
  constructor
  · intro hright
    exact ⟨UInt32.pos_iff_ne_zero.1 hright.called.1, UInt8.pos_iff_ne_zero.1 hright.called.2⟩
  · rintro ⟨hiterations, hparallelism⟩
    refine ⟨⟨UInt32.pos_iff_ne_zero.2 hiterations, UInt8.pos_iff_ne_zero.2 hparallelism⟩, ?_, ?_⟩
    · intro salt pw hsalt
      have hkey : C.idKey pw salt svc.argon.iterations svc.argon.memoryKiB svc.argon.parallelism svc.argon.keyLen ≠
          none := by
        rw [Ne, C.idKey_eq_none]
        exact not_or.2 ⟨hiterations, hparallelism⟩
      obtain ⟨key, hkey⟩ := Option.ne_none_iff_exists'.1 hkey
      have hhash : hashPassword C.toPrimitives svc.argon salt pw =
          some (String.ofList (encodeHash svc.argon salt key)) := congrArg (Option.map _) hkey
      refine ⟨_, hhash, ?_⟩
      rw [verifyPassword_hashPassword svc.argon hsalt hhash]
      simp
    · intro config' svc' _ salt pw hash hsalt hhash
      exact verifyPassword_hashPassword svc.argon hsalt hhash

end

def lowBits : Conversions where
  u32 f := UInt32.ofNat f.floor.toNat
  u8 f := UInt8.ofNat f.floor.toNat
  toNat_u32 := by
    intro f h0 hlt
    have hfloor : f.floor < 2 ^ 32 := Rat.floor_lt_iff.2 (by exact_mod_cast hlt)
    rw [UInt32.toNat_ofNat']
    exact Nat.mod_eq_of_lt (by omega)
  toNat_u8 := by
    intro f h0 hlt
    have hfloor : f.floor < 2 ^ 8 := Rat.floor_lt_iff.2 (by exact_mod_cast hlt)
    rw [UInt8.toNat_ofNat']
    exact Nat.mod_eq_of_lt (by omega)

/-! ### Two configs -/

/-- Key derivations that are those of the package on the sample. -/
def sampleArgon : Argon where
  idKey pw salt time memory threads keyLen :=
    if time = 0 ∨ threads = 0 then none
    else some ((samplePrimitives.idKey pw salt time memory threads keyLen).getD (List.replicate keyLen.toNat 0))
  length_idKey := by
    intro pw salt time memory threads keyLen key h
    split_ifs at h
    cases hkey : samplePrimitives.idKey pw salt time memory threads keyLen with
    | none =>
      rw [hkey] at h
      cases h
      simp
    | some key' =>
      rw [hkey] at h
      cases h
      exact samplePrimitives.length_idKey hkey
  compareHashAndPassword := samplePrimitives.compareHashAndPassword
  idKey_eq_none := by
    intro pw salt time memory threads keyLen
    by_cases hzero : time = 0 ∨ threads = 0
    · exact iff_of_true (if_pos hzero) hzero
    · exact iff_of_false (by rw [if_neg hzero]; simp) hzero

/-- A config with the parameters of the sample and some number of threads. -/
def sampleConfig (parallelism : Rat) : AnyMap :=
  GoMap.ofPairs [("database", .str "main"), ("argon2", .obj [("memory_kib", .num 8), ("iterations", .num 2),
    ("salt_len", .num 8), ("key_len", .num 4), ("parallelism", .num parallelism)])]

/-- With one thread the sample hashes right. -/
theorem hashesRight_one_thread : ∃ svc, newService lowBits (sampleConfig 1) = .ok svc ∧
    svc.argon = ⟨8, 2, 8, 4, 1⟩ ∧ HashesRight sampleArgon lowBits svc.argon := by
  have hargon : argonOf lowBits (sampleConfig 1) = ⟨8, 2, 8, 4, 1⟩ := by decide +kernel
  obtain ⟨svc, hsvc⟩ : ∃ svc, newService lowBits (sampleConfig 1) = .ok svc := ⟨_, rfl⟩
  refine ⟨svc, hsvc, (argon_newService hsvc).trans hargon, (newService_hashesRight_iff sampleArgon hsvc).2 ?_⟩
  rw [staysPositive_iff, hargon]
  decide

/-- With 256 threads the service is accepted and every call of `HashPassword` panics. -/
theorem not_hashesRight_256_threads : ∃ svc, newService lowBits (sampleConfig 256) = .ok svc ∧
    (∀ salt pw, hashPassword sampleArgon.toPrimitives svc.argon salt pw = none) ∧
    ¬ HashesRight sampleArgon lowBits svc.argon := by
  have hargon : argonOf lowBits (sampleConfig 256) = ⟨8, 2, 8, 4, 0⟩ := by decide +kernel
  obtain ⟨svc, hsvc⟩ : ∃ svc, newService lowBits (sampleConfig 256) = .ok svc := ⟨_, rfl⟩
  have hzero := (argon_newService hsvc).trans hargon
  refine ⟨svc, hsvc, ?_, ?_⟩
  · intro salt pw
    rw [hzero]
    rfl
  · intro h
    have hcalled := h.called.2
    rw [hzero] at hcalled
    exact absurd hcalled (by decide)

end Noda.Auth
