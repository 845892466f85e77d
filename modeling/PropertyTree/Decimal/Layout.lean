import PropertyTree.Decimal.Shortest
/-!
# Decimal layout

How the shortest decimal of a number is written: positionally, with at least one digit after the
point, or with an exponent. A `Layout` says which leading exponents are written positionally.
-/

namespace PropertyTree.Decimal

/-- How a binary number is written. -/
structure Layout where
  /-- The exponents of the leading digit that are written positionally. -/
  positional : Int → Bool
  tie : Tie

/-- Digits with the point after the first `lead`, and at least one digit on each side. -/
def pointed (digits : List Char) (lead : Int) : List Char :=
  let zeros (n : Int) := List.replicate n.toNat '0'
  let front := if lead ≤ 0 then ['0'] else digits.take lead.toNat ++ zeros (lead - digits.length)
  let back := if lead ≤ 0 then zeros (-lead) ++ digits else digits.drop lead.toNat
  front ++ '.' :: (if back.isEmpty then ['0'] else back)

/-- One digit before the point and an exponent with its sign; no point after a single digit. -/
def scientific (digits : List Char) (exponent : Int) : List Char :=
  let mantissa :=
    match digits with
    | first :: second :: rest => first :: '.' :: second :: rest
    | short => short
  let sign := if exponent < 0 then '-' else '+'
  mantissa ++ 'e' :: sign :: Nat.toDigits 10 exponent.natAbs

/-- Writes a binary number in a layout. -/
def Layout.render (layout : Layout) (f : Binary64) : String :=
  let d := shortest layout.tie f
  let digits := Nat.toDigits 10 d.coefficient
  let leading := d.exponent + digits.length - 1
  let body :=
    if layout.positional leading then pointed digits (leading + 1) else scientific digits leading
  .ofList (if f.negative then '-' :: body else body)

end PropertyTree.Decimal
