import Mathlib.Algebra.Ring.Int.Defs
import Mathlib.Algebra.Ring.Nat
import Mathlib.Data.List.Basic

/-!
# Durations

`time.ParseDuration` of the Go standard library: an optional sign and a sequence of decimal numbers, each with an
optional fraction and a unit, such as `"1h30m"` or `"1.5s"`.  A duration is a number of nanoseconds that fits an
`int64`; fractions are computed exactly and rounded down.  `toText` is its `String` method.
-/

namespace Duration

/-- The nanoseconds of a unit (`unitMap`). -/
def unitNanos : String → Option Nat
  | "ns" => some 1
  | "us" | "µs" | "μs" => some 1000
  | "ms" => some (1000 * 1000)
  | "s" => some (1000 * 1000 * 1000)
  | "m" => some (60 * 1000 * 1000 * 1000)
  | "h" => some (60 * 60 * 1000 * 1000 * 1000)
  | _ => none

private def digitsValue (ds : List Char) : Nat := ds.foldl (fun v c => v * 10 + (c.toNat - '0'.toNat)) 0

/-- One `number unit` group: its nanoseconds and the rest of the text.  A fraction contributes whole nanoseconds. -/
def parseGroup (s : List Char) : Option (Nat × List Char) :=
  let whole := s.takeWhile Char.isDigit
  let rest := s.dropWhile Char.isDigit
  let (frac, rest) :=
    match rest with
    | '.' :: r => (r.takeWhile Char.isDigit, r.dropWhile Char.isDigit)
    | r => ([], r)
  let unit := rest.takeWhile fun c => !(c == '.' || c.isDigit)
  let rest := rest.dropWhile fun c => !(c == '.' || c.isDigit)
  if whole = [] ∧ frac = [] then none
  else
    match unitNanos (String.ofList unit) with
    | none => none
    | some u =>
      let v := digitsValue whole * u + digitsValue frac * u / 10 ^ frac.length
      if v > 2 ^ 63 then none else some (v, rest)

/-- The groups of the text, added up; `fuel` is the length of the text. -/
def parseGroups : Nat → List Char → Nat → Option Nat
  | _, [], d => some d
  | 0, _ :: _, _ => none
  | fuel + 1, s, d =>
    match parseGroup s with
    | none => none
    | some (v, rest) => if d + v > 2 ^ 63 then none else parseGroups fuel rest (d + v)

/-- `time.ParseDuration`; `none` is its error. -/
def parse (s : String) : Option Int :=
  let (neg, cs) :=
    match s.toList with
    | '-' :: cs => (true, cs)
    | '+' :: cs => (false, cs)
    | cs => (false, cs)
  if cs = ['0'] then some 0
  else if cs = [] then none
  else
    match parseGroups cs.length cs 0 with
    | none => none
    | some d => if neg then some (-(d : Int)) else if d > 2 ^ 63 - 1 then none else some d

/-- `n` in units of `10 ^ digits`, with its fraction but without trailing zeros (`fmtFrac`). -/
def decimal (n digits : Nat) : String :=
  let whole := toString (n / 10 ^ digits)
  let frac := n % 10 ^ digits
  if frac = 0 then whole
  else
    let padded := (toString (10 ^ digits + frac)).toList.tail
    whole ++ "." ++ String.ofList (padded.reverse.dropWhile (· == '0')).reverse

/-- `Duration.String`. -/
def toText (d : Int) : String :=
  let n := d.natAbs
  let text :=
    if n = 0 then "0s"
    else if n < 10 ^ 3 then toString n ++ "ns"
    else if n < 10 ^ 6 then decimal n 3 ++ "µs"
    else if n < 10 ^ 9 then decimal n 6 ++ "ms"
    else
      let seconds := decimal (n % (60 * 10 ^ 9)) 9 ++ "s"
      let minutes := n / (60 * 10 ^ 9)
      if minutes = 0 then seconds
      else if minutes < 60 then toString minutes ++ "m" ++ seconds
      else toString (minutes / 60) ++ "h" ++ toString (minutes % 60) ++ "m" ++ seconds
  if d < 0 then "-" ++ text else text

end Duration
