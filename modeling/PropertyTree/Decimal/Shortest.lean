import PropertyTree.Binary64
/-!
# Shortest decimals

The shortest decimal of a binary number is the one with the fewest digits among those that round
back to it, and the nearest of these. For each number of digits only the two neighbours of the value
on that decimal grid are looked at: if any point of the grid rounds back, one of them does. All
comparisons are between naturals over a common denominator.
-/

namespace PropertyTree

/-- The number `coefficient · 10 ^ exponent`. -/
structure Decimal where
  coefficient : Nat
  exponent : Int
deriving DecidableEq

namespace Decimal

/-- Which of two equally near decimals is taken. -/
inductive Tie where
  | toEven
  | away
deriving DecidableEq

/-- The number of decimal digits of a natural. -/
def digitCount (n : Nat) : Nat := (Nat.toDigits 10 n).length

/-- Moves the zeros at the end of the coefficient into the exponent; `fuel` bounds how many. -/
def trimZeros (fuel : Nat) (d : Decimal) : Decimal :=
  match fuel with
  | 0 => d
  | fuel + 1 =>
    if d.coefficient ≠ 0 ∧ d.coefficient % 10 = 0 then
      trimZeros fuel ⟨d.coefficient / 10, d.exponent + 1⟩
    else d

/-- The reals that round to a binary number, as quotients over one denominator. -/
structure Interval where
  low : Nat
  value : Nat
  high : Nat
  den : Nat
  /-- The ends round to the number, too. -/
  closed : Bool

/-- The reals that round to the magnitude of a number other than zero. Below a power of two the
neighbour is half as far. -/
def Interval.of (f : Binary64) : Interval :=
  let m := f.significand
  let below := if f.fraction.val = 0 ∧ 1 < f.exponent.val then 1 else 2
  let unit := f.scale - 2
  let factor := 1 <<< unit.toNat
  { low := (4 * m - below) * factor
    value := 4 * m * factor
    high := (4 * m + 2) * factor
    den := 1 <<< (-unit).toNat
    closed := m % 2 = 0 }

/-- The decimal `coefficient · 10 ^ exponent` lies in the interval. -/
def Interval.holds (i : Interval) (coefficient : Nat) (exponent : Int) : Bool :=
  let point := coefficient * Nat.pow 10 exponent.toNat * i.den
  let grid := Nat.pow 10 (-exponent).toNat
  if i.closed then i.low * grid ≤ point && point ≤ i.high * grid
  else i.low * grid < point && point < i.high * grid

/-- The exponent of the leading decimal digit of the value. -/
def Interval.leadingExponent (i : Interval) : Int :=
  let guess := (digitCount i.value : Int) - digitCount i.den
  if i.den * Nat.pow 10 guess.toNat ≤ i.value * Nat.pow 10 (-guess).toNat then guess else guess - 1

/-- The decimal with `digits` digits in the interval that is nearest to the value, if there is
one. -/
def Interval.onGrid? (i : Interval) (tie : Tie) (digits : Nat) : Option Decimal :=
  let exponent := i.leadingExponent - digits + 1
  let num := i.value * Nat.pow 10 (-exponent).toNat
  let den := i.den * Nat.pow 10 exponent.toNat
  let floor := num / den
  let rest := num % den
  let upper := (rest ≠ 0 : Bool) && i.holds (floor + 1) exponent
  if i.holds floor exponent then
    let up := upper && (den < 2 * rest ||
      (2 * rest == den && (tie == .away || floor % 2 == 1)))
    some ⟨if up then floor + 1 else floor, exponent⟩
  else if upper then some ⟨floor + 1, exponent⟩
  else none

/-- The shortest decimal that rounds to the magnitude of the number. -/
def shortest (tie : Tie) (f : Binary64) : Decimal :=
  if f.significand = 0 then ⟨0, 0⟩
  else
    let i := Interval.of f
    match (List.range 17).findSome? fun n => i.onGrid? tie (n + 1) with
    | some d => trimZeros 17 d
    | none => ⟨0, 0⟩

/-- The binary number nearest to a decimal, or none beyond the finite range. An exponent far outside
the range is decided by the position of the leading digit alone. -/
def toBinary64? (negative : Bool) (d : Decimal) : Option Binary64 :=
  let leading := (digitCount d.coefficient : Int) + d.exponent
  if d.coefficient = 0 then some (.zero negative)
  else if 310 < leading then none
  else if leading < -330 then some (.zero negative)
  else
    Binary64.nearest? negative (d.coefficient * Nat.pow 10 d.exponent.toNat)
      (Nat.pow 10 (-d.exponent).toNat)

end Decimal

end PropertyTree
