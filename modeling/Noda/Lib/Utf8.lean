import Mathlib.Data.List.Basic

/-!
# UTF-8

Texts as lists of bytes.  `runeLen` is the length of the code point at the start of a text, as in the table of RFC 3629,
or `0` where there is none.  `sanitize` replaces each byte that is not part of a code point by U+FFFD, as an encoder
does that has to write valid text: it changes exactly the texts that are not valid (`sanitize_eq_self`), which it
makes longer (`length_lt_sanitize`).
-/

namespace Utf8

/-- The byte is between the bounds. -/
def within (low high : UInt8) (b : UInt8) : Bool := low ≤ b && b ≤ high

/-- A continuation byte. -/
def tail (b : UInt8) : Bool := within 0x80 0xBF b

/-- A code point of two, three or four bytes, by its first byte. -/
def two (a b : UInt8) : Bool := within 0xC2 0xDF a && tail b

def three (a b c : UInt8) : Bool :=
  (a == 0xE0 && within 0xA0 0xBF b || (within 0xE1 0xEC a || within 0xEE 0xEF a) && tail b ||
    a == 0xED && within 0x80 0x9F b) && tail c

def four (a b c d : UInt8) : Bool :=
  (a == 0xF0 && within 0x90 0xBF b || within 0xF1 0xF3 a && tail b || a == 0xF4 && within 0x80 0x8F b) && tail c &&
    tail d

/-- The number of bytes of the code point at the start, or `0`. -/
def runeLen : List UInt8 → Nat
  | [] => 0
  | [a] => if a < 0x80 then 1 else 0
  | [a, b] => if a < 0x80 then 1 else if two a b then 2 else 0
  | [a, b, c] => if a < 0x80 then 1 else if two a b then 2 else if three a b c then 3 else 0
  | a :: b :: c :: d :: _ =>
    if a < 0x80 then 1 else if two a b then 2 else if three a b c then 3 else if four a b c d then 4 else 0

/-- The limits of the table: overlong forms, surrogates and what is above U+10FFFF are not code points. -/
example : [[0xC0, 0x80], [0xE0, 0x80, 0x80], [0xED, 0xA0, 0x80], [0xF4, 0x90, 0x80, 0x80], [0xC2, 0x80],
    [0xE0, 0xA0, 0x80],
    [0xED, 0x9F, 0xBF], [0xF4, 0x8F, 0xBF, 0xBF]].map runeLen = [0, 0, 0, 0, 2, 3, 3, 4] := by
  decide

/-- The bytes of U+FFFD. -/
def replacement : List UInt8 := [0xEF, 0xBF, 0xBD]

/-- The text is valid, the first `n` bytes being the rest of a code point. -/
def validFrom : Nat → List UInt8 → Bool
  | _, [] => true
  | n + 1, _ :: bs => validFrom n bs
  | 0, b :: bs =>
    match runeLen (b :: bs) with
    | 0 => false
    | n + 1 => validFrom n bs

def valid (bs : List UInt8) : Bool := validFrom 0 bs

def sanitizeFrom : Nat → List UInt8 → List UInt8
  | _, [] => []
  | n + 1, b :: bs => b :: sanitizeFrom n bs
  | 0, b :: bs =>
    match runeLen (b :: bs) with
    | 0 => replacement ++ sanitizeFrom 0 bs
    | n + 1 => b :: sanitizeFrom n bs

/-- Each byte that is not part of a code point becomes U+FFFD. -/
def sanitize (bs : List UInt8) : List UInt8 := sanitizeFrom 0 bs

variable {bs : List UInt8} {n : Nat}

private theorem sanitizeFrom_of_valid (h : validFrom n bs = true) : sanitizeFrom n bs = bs := by
  induction bs generalizing n with
  | nil => cases n <;> rfl
  | cons b bs ih =>
    cases n with
    | succ n => rw [sanitizeFrom, ih h]
    | zero =>
      unfold validFrom at h
      unfold sanitizeFrom
      cases hlen : runeLen (b :: bs) with
      | zero =>
        rw [hlen] at h
        exact nomatch h
      | succ n =>
        rw [hlen] at h
        exact congrArg _ (ih h)

private theorem length_le_sanitizeFrom (n : Nat) (bs : List UInt8) : bs.length ≤ (sanitizeFrom n bs).length := by
  induction bs generalizing n with
  | nil => exact Nat.zero_le _
  | cons b bs ih =>
    cases n with
    | succ n =>
      rw [sanitizeFrom, List.length_cons, List.length_cons]
      exact Nat.succ_le_succ (ih n)
    | zero =>
      unfold sanitizeFrom
      cases hlen : runeLen (b :: bs) with
      | zero =>
        have hle := ih 0
        simp only [List.length_cons, List.length_append, replacement]
        omega
      | succ n => exact Nat.succ_le_succ (ih n)

private theorem length_lt_sanitizeFrom (h : validFrom n bs = false) : bs.length < (sanitizeFrom n bs).length := by
  induction bs generalizing n with
  | nil => cases n <;> exact nomatch h
  | cons b bs ih =>
    cases n with
    | succ n =>
      rw [sanitizeFrom, List.length_cons, List.length_cons]
      exact Nat.succ_lt_succ (ih h)
    | zero =>
      unfold validFrom at h
      unfold sanitizeFrom
      cases hlen : runeLen (b :: bs) with
      | zero =>
        -- one byte becomes three
        have hle := length_le_sanitizeFrom 0 bs
        simp only [List.length_cons, List.length_append, replacement]
        omega
      | succ n =>
        rw [hlen] at h
        exact Nat.succ_lt_succ (ih h)

private theorem sanitize_of_valid (h : valid bs = true) : sanitize bs = bs := sanitizeFrom_of_valid h

private theorem length_le_sanitize (bs : List UInt8) : bs.length ≤ (sanitize bs).length := length_le_sanitizeFrom 0 bs

theorem length_lt_sanitize (h : valid bs = false) : bs.length < (sanitize bs).length := length_lt_sanitizeFrom h

/-- A text that is sanitized twice is the same again only if it was valid. -/
theorem sanitize_sanitize_eq_self : sanitize (sanitize bs) = bs ↔ valid bs = true := by
  constructor
  · intro h
    by_contra hvalid
    have hlt := length_lt_sanitize (Bool.not_eq_true _ ▸ hvalid)
    have hle := length_le_sanitize (sanitize bs)
    rw [h] at hle
    omega
  · intro h
    rw [sanitize_of_valid h, sanitize_of_valid h]

theorem valid_of_ascii (h : ∀ b ∈ bs, b < 0x80) : valid bs = true := by
  unfold valid
  induction bs with
  | nil => rfl
  | cons b bs ih =>
    have hb := h b List.mem_cons_self
    have hlen : runeLen (b :: bs) = 1 := by
      unfold runeLen
      split <;> simp_all
    unfold validFrom
    rw [hlen]
    exact ih fun c hc => h c (List.mem_cons_of_mem _ hc)

end Utf8
