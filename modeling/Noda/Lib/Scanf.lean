import Mathlib.Algebra.Ring.Int.Defs
import Mathlib.Algebra.Ring.Nat
import Mathlib.Data.List.Basic

/-!
# Scanning numbers

The verb `%d` of `fmt.Sprintf` and `fmt.Sscanf` of the Go standard library.  A scanned number may be preceded by
spaces (not by a line break) and must fit its type; scanning stops at the first character that is not a digit, and
`scan` leaves the rest of the text unread, as `Sscanf` does.  Scanning reads back what printing wrote
(`scanUint_print`).
-/

namespace Scanf

/-- The spaces of the `fmt` package. -/
def isSpace (c : Char) : Bool :=
  let n := c.toNat
  (0x9 ≤ n && n ≤ 0xd) || n = 0x20 || n = 0x85 || n = 0xa0 || n = 0x1680 || (0x2000 ≤ n && n ≤ 0x200a) ||
    n = 0x2028 || n = 0x2029 || n = 0x202f || n = 0x205f || n = 0x3000

/-- Skips spaces; a line break is an error. -/
def skipSpace : List Char → Option (List Char)
  | [] => some []
  | c :: cs => if c = '\n' then none else if isSpace c then skipSpace cs else some (c :: cs)

/-- The digits at the start of the text, as a number. -/
def scanDigits (cs : List Char) : Option (Nat × List Char) :=
  let ds := cs.takeWhile Char.isDigit
  if ds = [] then none else some (Nat.ofDigitChars 10 ds 0, cs.dropWhile Char.isDigit)

/-- `%d` into an unsigned number of `bits` bits. -/
def scanUint (bits : Nat) (cs : List Char) : Option (Nat × List Char) := do
  let (n, rest) ← scanDigits (← skipSpace cs)
  if n < 2 ^ bits then some (n, rest) else none

/-- `%d` into an `int`. -/
def scanInt (cs : List Char) : Option (Int × List Char) := do
  match ← skipSpace cs with
  | '-' :: cs =>
    let (n, rest) ← scanDigits cs
    if n ≤ 2 ^ 63 then some (-(n : Int), rest) else none
  | cs =>
    let (n, rest) ← scanDigits (if cs.head? = some '+' then cs.tail else cs)
    if n < 2 ^ 63 then some (n, rest) else none

/-- A literal part of the format. -/
def literal : List Char → List Char → Option (List Char)
  | [], cs => some cs
  | _ :: _, [] => none
  | l :: ls, c :: cs => if l = c then literal ls cs else none

/-- `%d` of a natural number. -/
def print (n : Nat) : List Char := Nat.toDigits 10 n

theorem literal_append (ls cs : List Char) : literal ls (ls ++ cs) = some cs := by
  induction ls with
  | nil => rfl
  | cons l ls ih => simpa [literal] using ih

theorem isDigit_of_mem_print {n : Nat} {c : Char} (h : c ∈ print n) : c.isDigit = true :=
  Nat.isDigit_of_mem_toDigits (by decide) (by decide) h

theorem not_mem_print {n : Nat} {c : Char} (h : c.isDigit = false) : c ∉ print n := by
  intro hc
  rw [isDigit_of_mem_print hc] at h
  cases h

private theorem digit_not_space {c : Char} (h : c.isDigit = true) : c ≠ '\n' ∧ isSpace c = false := by
  have hn : 48 ≤ c.toNat ∧ c.toNat ≤ 57 := by
    simpa [Char.isDigit, UInt32.le_iff_toNat_le] using h
  constructor
  · rintro rfl
    exact absurd hn (by decide)
  · simp only [isSpace, Bool.or_eq_false_iff, Bool.and_eq_false_iff, decide_eq_false_iff_not]
    omega

private theorem skipSpace_print (n : Nat) (cs : List Char) : skipSpace (print n ++ cs) = some (print n ++ cs) := by
  cases h : print n with
  | nil => exact absurd h Nat.toDigits_ne_nil
  | cons d ds =>
    have hd : d.isDigit = true := isDigit_of_mem_print (n := n) (by rw [h]; exact List.mem_cons_self)
    obtain ⟨h1, h2⟩ := digit_not_space hd
    simp [skipSpace, h1, h2]

private theorem scanDigits_print (n : Nat) {cs : List Char} (hcs : cs.head?.all (!·.isDigit) = true) :
    scanDigits (print n ++ cs) = some (n, cs) := by
  have hall : ∀ c ∈ print n, c.isDigit = true := fun c hc => isDigit_of_mem_print hc
  have hrest : cs.takeWhile Char.isDigit = [] ∧ cs.dropWhile Char.isDigit = cs := by
    cases cs with
    | nil => exact ⟨rfl, rfl⟩
    | cons c cs =>
      have hc : c.isDigit = false := by simpa using hcs
      simp [hc]
  have htake : (print n ++ cs).takeWhile Char.isDigit = print n := by
    rw [List.takeWhile_append_of_pos hall, hrest.1, List.append_nil]
  have hdrop : (print n ++ cs).dropWhile Char.isDigit = cs := by
    rw [List.dropWhile_append_of_pos hall, hrest.2]
  have hne : print n ≠ [] := Nat.toDigits_ne_nil
  simp only [scanDigits, htake, hdrop, if_neg hne]
  rw [print, Nat.ofDigitChars_ten_toDigits]

theorem scanUint_print {bits n : Nat} (h : n < 2 ^ bits) (cs : List Char) (hcs : cs.head?.all (!·.isDigit) = true) :
    scanUint bits (print n ++ cs) = some (n, cs) := by
  simp [scanUint, skipSpace_print, scanDigits_print n hcs, h]

end Scanf
