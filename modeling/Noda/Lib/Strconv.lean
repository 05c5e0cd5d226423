import Mathlib.Algebra.Ring.Int.Defs
import Mathlib.Algebra.Ring.Nat
import Mathlib.Data.List.Basic

/-!
# Texts and numbers

`Quote` and `Atoi` of the package `strconv` of the Go standard library.  `Quote` is the verb `%q` of `fmt.Errorf`; of
the characters beyond ASCII all are taken to be printable.
-/

namespace Strconv

def quoteChar (c : Char) : List Char :=
  match c.toNat with
  | 0x07 => ['\\', 'a']
  | 0x08 => ['\\', 'b']
  | 0x09 => ['\\', 't']
  | 0x0a => ['\\', 'n']
  | 0x0b => ['\\', 'v']
  | 0x0c => ['\\', 'f']
  | 0x0d => ['\\', 'r']
  | n =>
    if c = '"' ∨ c = '\\' then ['\\', c]
    else if n < 0x20 ∨ n = 0x7f then ['\\', 'x', (n / 16).digitChar, (n % 16).digitChar]
    else [c]

/-- `strconv.Atoi`: an optional sign and digits, within the range of an `int`. -/
def atoi (s : List Char) : Option Int :=
  let (neg, digits) := match s with
    | '-' :: cs => (true, cs)
    | '+' :: cs => (false, cs)
    | cs => (false, cs)
  if digits = [] ∨ ¬digits.all Char.isDigit then none
  else
    let n := Nat.ofDigitChars 10 digits 0
    if neg then (if n ≤ 2 ^ 63 then some (-(n : Int)) else none) else if n < 2 ^ 63 then some n else none

end Strconv

/-- The verb `%q`. -/
def String.goQuote (s : String) : String := String.ofList ('"' :: s.toList.flatMap Strconv.quoteChar ++ ['"'])

example : "say \"a\r\x01\"".goQuote = "\"say \\\"a\\r\\x01\\\"\"" := by decide +kernel
