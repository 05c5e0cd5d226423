import Noda.Lib.Base64
import Noda.Lib.Scanf

/-!
# Password hashes

`crypto.go` of the auth plugin.  A password is stored as a PHC text of its argon2id key, which holds the parameters and
the salt of the key; bcrypt hashes are accepted too.  The key derivations of `golang.org/x/crypto` are a parameter
(`Primitives`), with the one property the encoding relies on: a key has the length that was asked for.

`verifyPassword_hashPassword`: whatever the configured parameters are, a hash verifies for the password it was made
from, and asks to be made again exactly if the parameters have changed.
-/

namespace Noda.Auth

open Scanf

/-- `ArgonParams`. -/
structure ArgonParams where
  memoryKiB : UInt32
  iterations : UInt32
  saltLen : UInt32
  keyLen : UInt32
  parallelism : UInt8
  deriving DecidableEq, Repr

/-- The result of `bcrypt.CompareHashAndPassword`. -/
inductive BcryptResult where
  | ok
  | mismatched
  | failed
  deriving DecidableEq, Repr

/-- The key derivations of `golang.org/x/crypto`: `argon2.IDKey` of a password, a salt, the iterations, the memory, the
threads and the length of the key, where `none` is a panic, and `bcrypt.CompareHashAndPassword`. -/
structure Primitives where
  idKey : String → List UInt8 → UInt32 → UInt32 → UInt8 → UInt32 → Option (List UInt8)
  length_idKey : ∀ {pw salt time memory threads keyLen key}, idKey pw salt time memory threads keyLen = some key →
    key.length = keyLen.toNat
  compareHashAndPassword : String → String → BcryptResult

/-- `argon2.Version`. -/
def argonVersion : Nat := 19

variable (C : Primitives)

/-- The text of `HashPassword` for a key. -/
def encodeHash (p : ArgonParams) (salt key : List UInt8) : List Char :=
  "$argon2id$v=".toList ++ print argonVersion ++ "$m=".toList ++ print p.memoryKiB.toNat ++ ",t=".toList ++
    print p.iterations.toNat ++ ",p=".toList ++ print p.parallelism.toNat ++ "$".toList ++ Base64.encode salt ++
      "$".toList ++ Base64.encode key

/-- `HashPassword` with the salt that was drawn; `none` is a panic of `argon2.IDKey`. -/
def hashPassword (p : ArgonParams) (salt : List UInt8) (pw : String) : Option String :=
  (C.idKey pw salt p.iterations p.memoryKiB p.parallelism p.keyLen).map fun key =>
    String.ofList (encodeHash p salt key)

/-- `fmt.Sscanf(s, "m=%d,t=%d,p=%d", &m, &t, &p)`. -/
def scanParams (cs : List Char) : Option (UInt32 × UInt32 × UInt8) := do
  let (m, cs) ← scanUint 32 (← literal "m=".toList cs)
  let (t, cs) ← scanUint 32 (← literal ",t=".toList cs)
  let (p, _) ← scanUint 8 (← literal ",p=".toList cs)
  some (UInt32.ofNat m, UInt32.ofNat t, UInt8.ofNat p)

/-- `verifyArgon2id`: whether the password matches, and the parameters of the hash.  `none` is a panic. -/
def verifyArgon2id (pw encoded : String) : Option (Except String (Bool × ArgonParams)) :=
  match encoded.toList.splitOn '$' with
  | [_, _, version, params, salt, key] =>
    match (literal "v=".toList version).bind scanInt with
    | none => some (.error "auth: malformed argon2id version")
    | some _ =>
      match scanParams params with
      | none => some (.error "auth: malformed argon2id params")
      | some (m, t, p) =>
        match Base64.decode salt with
        | none => some (.error "auth: malformed argon2id salt")
        | some salt =>
          match Base64.decode key with
          | none => some (.error "auth: malformed argon2id key")
          | some want =>
            (C.idKey pw salt t m p (UInt32.ofNat want.length)).map fun got =>
              .ok (got = want,
                { memoryKiB := m, iterations := t, parallelism := p, saltLen := UInt32.ofNat salt.length,
                  keyLen := UInt32.ofNat want.length })
  | _ => some (.error "auth: malformed argon2id hash")

/-- `strings.HasPrefix`. -/
def hasPrefix (s pre : String) : Bool := pre.toList.isPrefixOf s.toList

/-- `VerifyPassword` of a service with the given parameters: `ok` and `needsRehash`. -/
def verifyPassword (argon : ArgonParams) (pw encoded : String) : Option (Except String (Bool × Bool)) :=
  if hasPrefix encoded "$argon2id$" then
    (verifyArgon2id C pw encoded).map fun
      | .error err => .error err
      | .ok (false, _) => .ok (false, false)
      | .ok (true, stored) => .ok (true, stored ≠ argon)
  else if hasPrefix encoded "$2a$" || hasPrefix encoded "$2b$" || hasPrefix encoded "$2y$" then
    match C.compareHashAndPassword encoded pw with
    | .mismatched => some (.ok (false, false))
    | .failed => some (.error "auth: bcrypt verify")
    | .ok => some (.ok (true, true))
  else some (.error "auth: unrecognized password hash format")

/-! ### The round trip -/

variable {C}

private theorem dollar_not_mem_encode (bs : List UInt8) : '$' ∉ Base64.encode bs := by
  intro h
  exact absurd (Base64.mem_encode h) (by decide +kernel)

/-- The fields of an encoded hash, between its dollar signs. -/
def hashFields (p : ArgonParams) (salt key : List UInt8) : List (List Char) :=
  [[], "argon2id".toList, "v=".toList ++ print argonVersion,
    "m=".toList ++ (print p.memoryKiB.toNat ++ (",t=".toList ++ (print p.iterations.toNat ++ (",p=".toList ++
      print p.parallelism.toNat)))), Base64.encode salt, Base64.encode key]

private theorem encodeHash_eq (p : ArgonParams) (salt key : List UInt8) :
    encodeHash p salt key = ['$'].intercalate (hashFields p salt key) := by
  unfold encodeHash hashFields
  generalize print argonVersion = version
  simp [List.intercalate, List.intersperse]

private theorem splitOn_encodeHash (p : ArgonParams) (salt key : List UInt8) :
    (encodeHash p salt key).splitOn '$' = hashFields p salt key := by
  have hprint : ∀ n, '$' ∉ print n := fun n => not_mem_print (by decide)
  rw [encodeHash_eq]
  refine List.splitOn_intercalate '$' ?_ (List.cons_ne_nil _ _)
  simp [hashFields, hprint, dollar_not_mem_encode]

private theorem hasPrefix_encodeHash (p : ArgonParams) (salt key : List UInt8) :
    hasPrefix (String.ofList (encodeHash p salt key)) "$argon2id$" = true := by
  have hsplit : "$argon2id$v=".toList = "$argon2id$".toList ++ "v=".toList := by simp
  have hpre : "$argon2id$".toList <+: encodeHash p salt key := by
    unfold encodeHash
    generalize print argonVersion = version
    simp only [List.append_assoc, hsplit, List.prefix_append]
  simp only [hasPrefix, String.toList_ofList]
  exact List.isPrefixOf_iff_prefix.2 hpre

private theorem scanParams_print (m t : UInt32) (p : UInt8) :
    scanParams ("m=".toList ++ (print m.toNat ++ (",t=".toList ++ (print t.toNat ++ (",p=".toList ++
      print p.toNat))))) = some (m, t, p) := by
  have hm : ∀ cs, scanUint 32 (print m.toNat ++ (",t=".toList ++ cs)) = some (m.toNat, ",t=".toList ++ cs) :=
    fun cs => scanUint_print m.toNat_lt _ (by simp)
  have ht : ∀ cs, scanUint 32 (print t.toNat ++ (",p=".toList ++ cs)) = some (t.toNat, ",p=".toList ++ cs) :=
    fun cs => scanUint_print t.toNat_lt _ (by simp)
  have hp : scanUint 8 (print p.toNat) = some (p.toNat, []) := by
    simpa using scanUint_print p.toNat_lt [] (by simp)
  simp only [scanParams, literal_append, Option.bind_eq_bind, Option.bind_some, hm, ht, hp, UInt32.ofNat_toNat,
    UInt8.ofNat_toNat]

private theorem version_scanned : ((literal "v=".toList ("v=".toList ++ print argonVersion)).bind scanInt).isSome := by
  decide +kernel

private theorem verifyArgon2id_hashPassword {p : ArgonParams} {salt : List UInt8} {pw h : String}
    (hsalt : salt.length = p.saltLen.toNat) (hh : hashPassword C p salt pw = some h) :
    verifyArgon2id C pw h = some (.ok (true, p)) := by
  obtain ⟨key, hkey, rfl⟩ := Option.map_eq_some_iff.1 hh
  have hlen := C.length_idKey hkey
  obtain ⟨v, hv⟩ := Option.isSome_iff_exists.1 version_scanned
  have hk : UInt32.ofNat key.length = p.keyLen := by rw [hlen, UInt32.ofNat_toNat]
  have hs : UInt32.ofNat salt.length = p.saltLen := by rw [hsalt, UInt32.ofNat_toNat]
  simp only [verifyArgon2id, String.toList_ofList, splitOn_encodeHash, hashFields, hv, scanParams_print,
    Base64.decode_encode, hk, hs, hkey, Option.map_some, decide_true]

/-- A hash verifies for the password it was made from, and asks to be made again if the parameters have changed. -/
theorem verifyPassword_hashPassword {p : ArgonParams} {salt : List UInt8} {pw h : String} (argon : ArgonParams)
    (hsalt : salt.length = p.saltLen.toNat) (hh : hashPassword C p salt pw = some h) :
    verifyPassword C argon pw h = some (.ok (true, decide (p ≠ argon))) := by
  have hpre : hasPrefix h "$argon2id$" = true := by
    obtain ⟨key, hkey, hkh⟩ := Option.map_eq_some_iff.1 hh
    rw [← hkh]
    exact hasPrefix_encodeHash p salt key
  rw [verifyPassword, if_pos hpre, verifyArgon2id_hashPassword hsalt hh, Option.map_some]

/-- The hash was made from the password, under some parameters and with some salt. -/
def Derived (C : Primitives) (pw hash : String) : Prop :=
  ∃ argon : ArgonParams, ∃ salt : List UInt8, salt.length = argon.saltLen.toNat ∧
    hashPassword C argon salt pw = some hash

/-- `VerifyPassword` accepts the password, whatever the parameters of the service are. -/
def Accepted (C : Primitives) (pw hash : String) : Prop :=
  ∀ argon, ∃ needsRehash, verifyPassword C argon pw hash = some (.ok (true, needsRehash))

theorem Derived.accepted {pw hash : String} (h : Derived C pw hash) : Accepted C pw hash := by
  obtain ⟨p, salt, hsalt, hh⟩ := h
  exact fun argon => ⟨_, verifyPassword_hashPassword argon hsalt hh⟩

end Noda.Auth
