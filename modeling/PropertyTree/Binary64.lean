/-!
# Finite binary floating point

A `Binary64` is a finite number of the 64-bit binary format, kept by the three fields of its word:
sign, biased exponent and fraction. It denotes `±significand · 2 ^ scale` exactly. Reading a
quotient of naturals rounds it to the nearest such number, a half going to the even neighbour.
-/

namespace PropertyTree

/-- A finite number of the 64-bit binary format. -/
structure Binary64 where
  negative : Bool
  /-- The biased exponent; `0` marks zero and the subnormal numbers. -/
  exponent : Fin 2047
  fraction : Fin 0x10_0000_0000_0000
deriving DecidableEq

/-- A number of the 64-bit binary format, or one of its words that are no number. -/
inductive Extended64 where
  | finite (value : Binary64)
  | infinite (negative : Bool)
  | nan
deriving DecidableEq

namespace Binary64

/-- Zero of the given sign. -/
def zero (negative : Bool) : Binary64 := ⟨negative, 0, 0⟩

instance : Inhabited Binary64 := ⟨zero false⟩

/-- The leading digit of a significand that is not written into its word: `2 ^ 52`. -/
def hiddenBit : Nat := 0x10_0000_0000_0000

/-- The integer factor of the magnitude: below `2 ^ 53`. -/
def significand (f : Binary64) : Nat :=
  if f.exponent.val = 0 then f.fraction.val else hiddenBit + f.fraction.val

/-- The power of two that scales the significand. -/
def scale (f : Binary64) : Int :=
  (max f.exponent.val 1 : Nat) - 1075

/-- The number with this significand and scale: a significand below `2 ^ 52` is subnormal and needs
the least scale. There is none when the scale is too large. -/
def ofSignificand? (negative : Bool) (significand : Nat) (scale : Int) : Option Binary64 :=
  if small : significand < 0x10_0000_0000_0000 then some ⟨negative, 0, ⟨significand, small⟩⟩
  else
    let exponent := (scale + 1075).toNat
    let fraction := significand - hiddenBit
    if fits : exponent < 2047 ∧ fraction < 0x10_0000_0000_0000 then
      some ⟨negative, ⟨exponent, fits.1⟩, ⟨fraction, fits.2⟩⟩
    else none

/-- `num / den` rounded to the nearest natural, a half to the even one. -/
def roundHalfEven (num den : Nat) : Nat :=
  let quotient := num / den
  let twice := 2 * (num % den)
  if twice < den then quotient
  else if den < twice then quotient + 1
  else quotient + quotient % 2

/-- `num / den / 2 ^ scale` as a quotient of naturals. -/
def scaleDown (num den : Nat) (scale : Int) : Nat × Nat :=
  if scale < 0 then (num <<< (-scale).toNat, den) else (num, den <<< scale.toNat)

/-- The number nearest to `num / den`, or none when that lies beyond the finite range. -/
def nearest? (negative : Bool) (num den : Nat) : Option Binary64 :=
  if num = 0 then some (zero negative)
  else
    let guess := max ((num.log2 : Int) - den.log2 - 53) (-1074)
    let low := scaleDown num den guess
    let scale := if low.1 / low.2 < 2 * hiddenBit then guess else guess + 1
    let scaled := scaleDown num den scale
    let rounded := roundHalfEven scaled.1 scaled.2
    if rounded = 2 * hiddenBit then ofSignificand? negative hiddenBit (scale + 1)
    else ofSignificand? negative rounded scale

/-- The number nearest to an integer. -/
def ofInt? (n : Int) : Option Binary64 := nearest? (n < 0) n.natAbs 1

/-- The magnitude as a quotient of naturals. -/
def ratio (f : Binary64) : Nat × Nat := (f.significand <<< f.scale.toNat, 1 <<< (-f.scale).toNat)

/-- The number nearest to the product of the magnitudes, or none beyond the finite range. -/
def mul? (f g : Binary64) : Option Binary64 :=
  nearest? false (f.ratio.1 * g.ratio.1) (f.ratio.2 * g.ratio.2)

/-- The number nearest to the quotient of the magnitudes, or none beyond the finite range. -/
def div? (f g : Binary64) : Option Binary64 :=
  nearest? false (f.ratio.1 * g.ratio.2) (f.ratio.2 * g.ratio.1)

/-- The greatest exponent of a power of ten in the finite range. -/
def maxPowerOfTen : Nat := 308

/-- The number nearest to a power of ten, or none beyond the finite range. -/
def powerOfTen? (exponent : Nat) : Option Binary64 :=
  if exponent ≤ maxPowerOfTen then nearest? false (Nat.pow 10 exponent) 1 else none

/-- The magnitude divided so many times by the greatest power of ten; a zero is left as it is. -/
def shrink? : Nat → Binary64 → Option Binary64
  | 0, f => some f
  | count + 1, f =>
    if f.significand = 0 then some f
    else do shrink? count (← f.div? (← powerOfTen? maxPowerOfTen))

/-- The magnitude times a power of ten, in steps that each round, or none beyond the finite
range. -/
def timesPowerOfTen? (f : Binary64) (exponent : Int) : Option Binary64 :=
  if exponent < 0 then do
    let count := (exponent.natAbs - 1) / maxPowerOfTen
    let less ← shrink? count f
    less.div? (← powerOfTen? (exponent.natAbs - maxPowerOfTen * count))
  else if f.significand = 0 then some f
  else do f.mul? (← powerOfTen? exponent.natAbs)

/-- The magnitude, when it is a natural number. -/
def natAbs? (f : Binary64) : Option Nat :=
  if 0 ≤ f.scale then some (f.significand <<< f.scale.toNat)
  else
    let unit := 1 <<< (-f.scale).toNat
    if f.significand % unit = 0 then some (f.significand / unit) else none

/-- The integer that the number denotes, if it denotes one. -/
def toInt? (f : Binary64) : Option Int :=
  f.natAbs?.map fun n => if f.negative then -(n : Int) else n

end Binary64

end PropertyTree
