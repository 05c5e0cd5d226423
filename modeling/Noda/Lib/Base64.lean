import Mathlib.Data.List.Basic
import Mathlib.Data.Option.Basic

/-!
# Base64

`base64.RawStdEncoding` of the Go standard library (`encode`), and `base64.StdEncoding` (`encodeStd`), which pads the
text to a multiple of four characters.  Three bytes are four sextets, each written as one character; the last group
may be of one or two bytes.  Decoding skips line breaks and does not look at the unused bits of the last sextet, so it
accepts more than encoding yields; on what encoding yields it is the inverse (`decode_encode`, `decodeStd_encodeStd`).
-/

namespace Base64

/-- The characters of the sextets. -/
def alphabet : List Char := "ABCDEFGHIJKLMNOPQRSTUVWXYZabcdefghijklmnopqrstuvwxyz0123456789+/".toList

/-- The character of a sextet. -/
def char (n : Nat) : Char := alphabet.getD n '='

/-- The sextet of a character. -/
def value (c : Char) : Option Nat := if c ∈ alphabet then some (alphabet.idxOf c) else none

/-- The sextets of the bytes. -/
def sextets : List UInt8 → List Nat
  | [] => []
  | [a] => [a.toNat / 4, a.toNat % 4 * 16]
  | [a, b] => [a.toNat / 4, a.toNat % 4 * 16 + b.toNat / 16, b.toNat % 16 * 4]
  | a :: b :: c :: rest =>
    a.toNat / 4 :: (a.toNat % 4 * 16 + b.toNat / 16) :: (b.toNat % 16 * 4 + c.toNat / 64) :: c.toNat % 64 ::
      sextets rest

/-- The bytes of the sextets; a group of one sextet is incomplete. -/
def bytes : List Nat → Option (List UInt8)
  | [] => some []
  | [_] => none
  | [w, x] => some [UInt8.ofNat (w * 4 + x / 16)]
  | [w, x, y] => some [UInt8.ofNat (w * 4 + x / 16), UInt8.ofNat (x % 16 * 16 + y / 4)]
  | w :: x :: y :: z :: rest =>
    (bytes rest).map fun bs =>
      UInt8.ofNat (w * 4 + x / 16) :: UInt8.ofNat (x % 16 * 16 + y / 4) :: UInt8.ofNat (y % 4 * 64 + z) :: bs

/-- `EncodeToString`. -/
def encode (bs : List UInt8) : List Char := (sextets bs).map char

/-- `DecodeString`; `none` is a corrupt input. -/
def decode (cs : List Char) : Option (List UInt8) :=
  ((cs.filter fun c => c ≠ '\r' ∧ c ≠ '\n').mapM value).bind bytes

private theorem char_spec : ∀ n : Fin 64, char n ∈ alphabet ∧ value (char n) = some n.val := by
  decide +kernel

private theorem char_mem {n : Nat} (h : n < 64) : char n ∈ alphabet := (char_spec ⟨n, h⟩).1

private theorem value_char {n : Nat} (h : n < 64) : value (char n) = some n := (char_spec ⟨n, h⟩).2

private theorem sextets_lt (bs : List UInt8) : ∀ n ∈ sextets bs, n < 64 := by
  fun_induction sextets bs with
  | case1 => simp
  | case2 a =>
    have ha := a.toNat_lt
    simp only [List.mem_cons, List.not_mem_nil, or_false, forall_eq_or_imp, forall_eq]
    omega
  | case3 a b =>
    have ha := a.toNat_lt
    have hb := b.toNat_lt
    simp only [List.mem_cons, List.not_mem_nil, or_false, forall_eq_or_imp, forall_eq]
    omega
  | case4 a b c rest ih =>
    have ha := a.toNat_lt
    have hb := b.toNat_lt
    have hc := c.toNat_lt
    simp only [List.mem_cons, forall_eq_or_imp]
    refine ⟨by omega, by omega, by omega, by omega, ih⟩

private theorem bytes_sextets (bs : List UInt8) : bytes (sextets bs) = some bs := by
  fun_induction sextets bs with
  | case1 => rfl
  | case2 a =>
    have ha := a.toNat_lt
    have h1 : a.toNat / 4 * 4 + a.toNat % 4 * 16 / 16 = a.toNat := by omega
    simp only [bytes, h1, UInt8.ofNat_toNat]
  | case3 a b =>
    have h1 : a.toNat / 4 * 4 + (a.toNat % 4 * 16 + b.toNat / 16) / 16 = a.toNat := by
      have hb := b.toNat_lt
      omega
    have h2 : (a.toNat % 4 * 16 + b.toNat / 16) % 16 * 16 + b.toNat % 16 * 4 / 4 = b.toNat := by
      have hb := b.toNat_lt
      omega
    simp only [bytes, h1, h2, UInt8.ofNat_toNat]
  | case4 a b c rest ih =>
    have hb := b.toNat_lt
    have hc := c.toNat_lt
    have h1 : a.toNat / 4 * 4 + (a.toNat % 4 * 16 + b.toNat / 16) / 16 = a.toNat := by omega
    have h2 : (a.toNat % 4 * 16 + b.toNat / 16) % 16 * 16 + (b.toNat % 16 * 4 + c.toNat / 64) / 4 = b.toNat := by
      omega
    have h3 : (b.toNat % 16 * 4 + c.toNat / 64) % 4 * 64 + c.toNat % 64 = c.toNat := by omega
    simp only [bytes, ih, Option.map_some, h1, h2, h3, UInt8.ofNat_toNat]

private theorem mapM_value_char {ns : List Nat} (h : ∀ n ∈ ns, n < 64) : (ns.map char).mapM value = some ns := by
  induction ns with
  | nil => rfl
  | cons n ns ih =>
    rw [List.map_cons, List.mapM_cons, value_char (h n List.mem_cons_self),
      ih fun m hm => h m (List.mem_cons_of_mem _ hm)]
    rfl

theorem mem_encode {bs : List UInt8} {c : Char} (h : c ∈ encode bs) : c ∈ alphabet := by
  obtain ⟨n, hn, rfl⟩ := List.mem_map.1 h
  exact char_mem (sextets_lt bs n hn)

theorem decode_encode (bs : List UInt8) : decode (encode bs) = some bs := by
  have hfilter : (encode bs).filter (fun c => c ≠ '\r' ∧ c ≠ '\n') = encode bs := by
    refine List.filter_eq_self.2 fun c hc => ?_
    have hmem := mem_encode hc
    refine decide_eq_true ⟨?_, ?_⟩
    · rintro rfl
      exact absurd hmem (by decide +kernel)
    · rintro rfl
      exact absurd hmem (by decide +kernel)
  rw [decode, hfilter, encode, mapM_value_char (sextets_lt bs), Option.bind_some, bytes_sextets]

/-! ### With padding -/

/-- `EncodeToString` of `StdEncoding`. -/
def encodeStd : List UInt8 → List Char
  | [] => []
  | [a] => encode [a] ++ ['=', '=']
  | [a, b] => encode [a, b] ++ ['=']
  | a :: b :: c :: rest => encode [a, b, c] ++ encodeStd rest

/-- The bytes of groups of four characters; the last one may end in padding. -/
def groups : List Char → Option (List UInt8)
  | [] => some []
  | a :: b :: c :: d :: rest =>
    if d = '=' then
      if rest ≠ [] then none
      else if c = '=' then ([a, b].mapM value).bind bytes
      else ([a, b, c].mapM value).bind bytes
    else (([a, b, c, d].mapM value).bind bytes).bind fun bs => (groups rest).map (bs ++ ·)
  | _ => none

/-- `DecodeString` of `StdEncoding`; `none` is a corrupt input. -/
def decodeStd (cs : List Char) : Option (List UInt8) := groups (cs.filter fun c => c ≠ '\r' ∧ c ≠ '\n')

private theorem mapM_value_encode (bs : List UInt8) : ((encode bs).mapM value).bind bytes = some bs := by
  rw [encode, mapM_value_char (sextets_lt bs), Option.bind_some, bytes_sextets]

private theorem char_ne_pad {n : Nat} (h : n < 64) : char n ≠ '=' := by
  intro heq
  have hmem := char_mem h
  rw [heq] at hmem
  exact absurd hmem (by decide +kernel)

private theorem groups_encodeStd (bs : List UInt8) : groups (encodeStd bs) = some bs := by
  fun_induction encodeStd bs with
  | case1 => rfl
  | case2 a =>
    have hvalue := mapM_value_encode [a]
    simpa [groups, encode, sextets] using hvalue
  | case3 a b =>
    have hvalue := mapM_value_encode [a, b]
    have hpad := char_ne_pad (sextets_lt [a, b] (b.toNat % 16 * 4) (by simp [sextets]))
    simpa [groups, encode, sextets, hpad] using hvalue
  | case4 a b c rest ih =>
    have hvalue := mapM_value_encode [a, b, c]
    have hpad := char_ne_pad (sextets_lt [a, b, c] (c.toNat % 64) (by simp [sextets]))
    simp only [encode, sextets, List.map_cons, List.map_nil] at hvalue
    simp only [encode, sextets, List.map_cons, List.map_nil, List.cons_append, List.nil_append, groups, hpad,
      if_false, ih, hvalue, Option.bind_some, Option.map_some]

/-- A padded text consists of characters of the alphabet and of padding. -/
theorem mem_encodeStd {bs : List UInt8} {c : Char} (h : c ∈ encodeStd bs) : c ∈ alphabet ∨ c = '=' := by
  fun_induction encodeStd bs with
  | case1 => exact absurd h List.not_mem_nil
  | case2 a =>
    rcases List.mem_append.1 h with h | h
    · exact .inl (mem_encode h)
    · exact .inr (by simpa using h)
  | case3 a b =>
    rcases List.mem_append.1 h with h | h
    · exact .inl (mem_encode h)
    · exact .inr (by simpa using h)
  | case4 a b c rest ih =>
    rcases List.mem_append.1 h with h | h
    · exact .inl (mem_encode h)
    · exact ih h

theorem decodeStd_encodeStd (bs : List UInt8) : decodeStd (encodeStd bs) = some bs := by
  have hfilter : (encodeStd bs).filter (fun c => c ≠ '\r' ∧ c ≠ '\n') = encodeStd bs := by
    refine List.filter_eq_self.2 fun c hc => ?_
    rcases mem_encodeStd hc with hmem | rfl
    · refine decide_eq_true ⟨?_, ?_⟩
      · rintro rfl
        exact absurd hmem (by decide +kernel)
      · rintro rfl
        exact absurd hmem (by decide +kernel)
    · decide
  rw [decodeStd, hfilter, groups_encodeStd]

end Base64
