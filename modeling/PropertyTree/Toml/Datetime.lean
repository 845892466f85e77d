import PropertyTree.Toml.Text
/-!
# Dates and times of TOML text

A date, a time of day, or a date with a time and perhaps an offset. They are kept by their normal
text: a `T` between date and time, at most nine digits of a second without zeros at the end, and `Z`
or a signed offset.
-/

namespace PropertyTree.Toml.Reader

/-- A natural of exactly `count` digits between two bounds. -/
def fixedNat (count low high : Nat) : Reader Nat := fun text =>
  let digits := text.take count
  let n := Json.Reader.naturalOf digits
  if digits.length = count ∧ digits.all Char.isDigit ∧ low ≤ n ∧ n ≤ high then
    some (n, text.drop count)
  else none

/-- A natural written with at least `width` digits. -/
def padded (width n : Nat) : List Char :=
  let digits := Nat.toDigits 10 n
  List.replicate (width - digits.length) '0' ++ digits

/-- The number of days of a month. -/
def daysIn (year month : Nat) : Nat :=
  if month = 2 then
    if year % 4 = 0 ∧ (year % 100 ≠ 0 ∨ year % 400 = 0) then 29 else 28
  else if month = 4 ∨ month = 6 ∨ month = 9 ∨ month = 11 then 30
  else 31

/-- A date. -/
def date : Reader (List Char) := fun text => do
  let (year, text) ← fixedNat 4 0 9999 text
  let (month, text) ← fixedNat 2 1 12 (← after? ['-'] text)
  let (day, text) ← fixedNat 2 1 (daysIn year month) (← after? ['-'] text)
  some (padded 4 year ++ '-' :: padded 2 month ++ '-' :: padded 2 day, text)

/-- The digits of a part of a second in their normal text, with the point. -/
def secondFraction (digits : List Char) : List Char :=
  match ((digits.take 9).reverse.dropWhile (· == '0')).reverse with
  | [] => []
  | kept => '.' :: kept

/-- A time of day. -/
def timeOfDay : Reader (List Char) := fun text => do
  let (hour, text) ← fixedNat 2 0 23 text
  let (minute, text) ← fixedNat 2 0 59 (← after? [':'] text)
  let (second, text) ← fixedNat 2 0 60 (← after? [':'] text)
  let clock := padded 2 hour ++ ':' :: padded 2 minute ++ ':' :: padded 2 second
  match text with
  | '.' :: rest =>
    let digits := rest.takeWhile Char.isDigit
    if digits.isEmpty then none
    else some (clock ++ secondFraction digits, rest.dropWhile Char.isDigit)
  | _ => some (clock, text)

/-- An offset from universal time, if one is written. An offset of zero is positive. -/
def offset : Reader (List Char) := fun text =>
  match text with
  | 'Z' :: rest | 'z' :: rest => some (['Z'], rest)
  | c :: rest =>
    if c = '+' ∨ c = '-' then do
      let (hour, rest) ← fixedNat 2 0 23 rest
      let (minute, rest) ← fixedNat 2 0 59 (← after? [':'] rest)
      let sign := if hour = 0 ∧ minute = 0 then '+' else c
      some (sign :: padded 2 hour ++ ':' :: padded 2 minute, rest)
    else some ([], text)
  | [] => some ([], [])

/-- The text begins as a date does. -/
def startsDate (text : List Char) : Bool :=
  ((fixedNat 4 0 9999 text).bind fun (_, rest) => after? ['-'] rest).isSome

/-- The text begins as a time of day does. -/
def startsTime (text : List Char) : Bool :=
  ((fixedNat 2 0 99 text).bind fun (_, rest) => after? [':'] rest).isSome

/-- A date, a time or both. -/
def datetime : Reader String := fun text =>
  if startsDate text then do
    let (day, rest) ← date text
    match rest with
    | c :: time =>
      if (c = 'T' ∨ c = 't' ∨ c = ' ') ∧ startsTime time then do
        let (clock, rest) ← timeOfDay time
        let (zone, rest) ← offset rest
        some (.ofList (day ++ 'T' :: clock ++ zone), rest)
      else some (.ofList day, rest)
    | [] => some (.ofList day, [])
  else do
    let (clock, rest) ← timeOfDay text
    some (.ofList clock, rest)

end PropertyTree.Toml.Reader
