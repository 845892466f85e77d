import PropertyTree.Json.Basic
/-!
# Reading JSON text

A reader takes the characters that are left and gives a result with the rest, or the fault at which
it stopped. The grammar is the strict one: blanks are space, tab, line feed and carriage return;
there are no comments, leading zeros or trailing commas; a surrogate escape needs its partner.
Arrays and objects nest at most as deep as the reader allows. Floats are read by way of a 64-bit
significand and may be off by the last bit. A text that could still go on is `ended`, any other
wrong text is `malformed`, and `misfit` is kept for texts that are JSON of the wrong shape.
-/

namespace PropertyTree.Json

/-- Why a text is not what it should be. -/
inductive Fault where
  /-- The text ends too early. -/
  | ended
  /-- The text is not JSON. -/
  | malformed
  /-- The text is JSON, but not of the wanted shape. -/
  | misfit
deriving DecidableEq

/-- The wording of a fault. -/
def Fault.message : Fault → String
  | .ended => "unexpected end of text"
  | .malformed => "malformed text"
  | .misfit => "unexpected shape"

/-- A reader of a value from the front of a text. -/
abbrev Reader (α : Type) := List Char → Except Fault (α × List Char)

namespace Reader

/-- Blanks between the parts of a JSON text. -/
def isBlank (c : Char) : Bool := c == ' ' || c == '\t' || c == '\n' || c == '\r'

/-- The text without the blanks in front. -/
def skipBlank (text : List Char) : List Char := text.dropWhile isBlank

/-- The rest of a text after the given characters. -/
def expect (word : List Char) (text : List Char) : Except Fault (List Char) :=
  match word, text with
  | [], rest => .ok rest
  | _ :: _, [] => .error .ended
  | w :: word, c :: rest => if w = c then expect word rest else .error .malformed

/-- The value of a hexadecimal digit. -/
def hexDigit? (c : Char) : Option Nat :=
  if '0' ≤ c && c ≤ '9' then some (c.toNat - 48)
  else if 'a' ≤ c && c ≤ 'f' then some (c.toNat - 87)
  else if 'A' ≤ c && c ≤ 'F' then some (c.toNat - 55)
  else none

/-- Four hexadecimal digits. The text ends too early when less than four bytes are left of it. -/
def hexQuad : Reader Nat := fun text =>
  if (text.take 4).foldl (fun bytes c => bytes + c.utf8Size) 0 < 4 then .error .ended
  else
    match (text.take 4).mapM hexDigit? with
    | some [a, b, c, d] => .ok (((a * 16 + b) * 16 + c) * 16 + d, text.drop 4)
    | _ => .error .malformed

/-- The character of a `\u` escape; a leading surrogate needs a trailing one after it. -/
def unicodeEscape : Reader Char := fun text => do
  let (first, text) ← hexQuad text
  if 0xDC00 ≤ first && first ≤ 0xDFFF then .error .malformed
  else if 0xD800 ≤ first && first ≤ 0xDBFF then
    let text ← expect ['\\', 'u'] text
    let (second, text) ← hexQuad text
    if 0xDC00 ≤ second && second ≤ 0xDFFF then
      .ok (.ofNat (0x10000 + (first - 0xD800) * 0x400 + (second - 0xDC00)), text)
    else .error .malformed
  else .ok (.ofNat first, text)

/-- The character of an escape, after its backslash. -/
def escaped : Reader Char
  | [] => .error .ended
  | c :: rest =>
    match c with
    | '"' => .ok ('"', rest)
    | '\\' => .ok ('\\', rest)
    | '/' => .ok ('/', rest)
    | 'b' => .ok ('\x08', rest)
    | 'f' => .ok ('\x0c', rest)
    | 'n' => .ok ('\n', rest)
    | 'r' => .ok ('\r', rest)
    | 't' => .ok ('\t', rest)
    | 'u' => unicodeEscape rest
    | _ => .error .malformed

/-- The characters of a string up to its closing quote, put in front of `done` in reverse. Each step
takes a character, so the length of the text is fuel enough. -/
def stringBody (fuel : Nat) (done : List Char) : Reader String := fun text =>
  match fuel, text with
  | 0, _ | _, [] => .error .ended
  | fuel + 1, c :: rest =>
    if c = '"' then .ok (.ofList done.reverse, rest)
    else if c = '\\' then do
      let (c, rest) ← escaped rest
      stringBody fuel (c :: done) rest
    else if c.toNat < 0x20 then .error .malformed
    else stringBody fuel (c :: done) rest

/-- A string, after its opening quote. -/
def string : Reader String := fun text => stringBody (text.length + 1) [] text

/-- At least one decimal digit, and all that follow it. -/
def digits : Reader (List Char) := fun text =>
  match text with
  | [] => .error .ended
  | c :: _ =>
    if c.isDigit then .ok (text.takeWhile Char.isDigit, text.dropWhile Char.isDigit)
    else .error .malformed

/-- The natural that decimal digits denote. -/
def naturalOf (digits : List Char) : Nat :=
  digits.foldl (fun n c => 10 * n + (c.toNat - 48)) 0

/-- The digits of a whole part: a zero stands alone. -/
def wholePart : Reader (List Char)
  | '0' :: rest =>
    match rest with
    | c :: _ => if c.isDigit then .error .malformed else .ok (['0'], rest)
    | [] => .ok (['0'], rest)
  | text => digits text

/-- The digits after a point; none without a point. -/
def fractionPart : Reader (List Char)
  | '.' :: rest => digits rest
  | rest => .ok ([], rest)

/-- The exponent, if one is written. -/
def exponentPart : Reader (Option Int)
  | c :: rest =>
    if c = 'e' ∨ c = 'E' then do
      let (negative, rest) := match rest with
        | '-' :: rest => (true, rest)
        | '+' :: rest => (false, rest)
        | rest => (false, rest)
      let (ds, rest) ← digits rest
      let size : Int := naturalOf ds
      .ok (some (if negative then -size else size), rest)
    else .ok (none, c :: rest)
  | [] => .ok (none, [])

/-- Puts digits behind a significand as long as it fits 64 bits. Gives it with the number of digits
that are left over. -/
def accumulate (significand : Nat) : List Char → Nat × Nat
  | [] => (significand, 0)
  | c :: rest =>
    let next := 10 * significand + (c.toNat - 48)
    if next < 2 ^ 64 then accumulate next rest else (significand, rest.length + 1)

/-- The float with this significand of 64 bits and power of ten. It is computed in floats, so it may
be off the nearest one. -/
def float? (negative : Bool) (significand : Nat) (power : Int) : Option Binary64 :=
  (Binary64.nearest? false significand 1).bind fun f =>
    (f.timesPowerOfTen? power).map fun size => { size with negative }

/-- A number. A literal without fraction and exponent is whole if it fits 64 bits, except that `-0`
keeps its sign as a float; a float must lie in the finite range. -/
def number : Reader Number := fun text => do
  let (negative, text) := match text with
    | '-' :: rest => (true, rest)
    | rest => (false, rest)
  let (whole, text) ← wholePart text
  let (fraction, text) ← fractionPart text
  let (exponent, text) ← exponentPart text
  let (size, surplus) := accumulate 0 whole
  let (significand, unread) := accumulate size fraction
  let power : Int := exponent.getD 0 + surplus - (fraction.length - unread : Nat)
  let literal := fraction.isEmpty && exponent.isNone && surplus == 0 && !(negative && size == 0)
  let float := match float? negative significand power with
    | some f => .ok (.float f, text)
    | none => .error .malformed
  if literal then
    match Number.ofInt? (if negative then -(size : Int) else size) with
    | some n => .ok (n, text)
    | none => float
  else float

/-- Items separated by commas up to the closing mark, each read by `item` into the state. Each item
takes a character, so the length of the text is fuel enough. -/
def items {σ : Type} (closeMark : Char) (item : σ → Reader σ) (fuel : Nat) (first : Bool)
    (state : σ) : Reader σ := fun text =>
  match fuel with
  | 0 => .error .ended
  | fuel + 1 =>
    match skipBlank text with
    | [] => .error .ended
    | c :: rest =>
      if c = closeMark then .ok (state, rest)
      else if first then do
        let (state, rest) ← item state (c :: rest)
        items closeMark item fuel false state rest
      else if c = ',' then do
        let (state, rest) ← item state rest
        items closeMark item fuel false state rest
      else .error .malformed

/-- The key of a member. -/
def memberKey : Reader String := fun text =>
  match skipBlank text with
  | [] => .error .ended
  | c :: rest => if c = '"' then string rest else .error .malformed

/-- The rest of a text after the colon in front of a member's value. -/
def colon (text : List Char) : Except Fault (List Char) := expect [':'] (skipBlank text)

/-- A value in which arrays and objects nest at most `depth` deep. -/
def value (depth : Nat) : Reader Json := fun text =>
  match skipBlank text with
  | [] => .error .ended
  | c :: rest =>
    match c with
    | 'n' => do .ok (.null, ← expect ['u', 'l', 'l'] rest)
    | 't' => do .ok (.bool true, ← expect ['r', 'u', 'e'] rest)
    | 'f' => do .ok (.bool false, ← expect ['a', 'l', 's', 'e'] rest)
    | '"' => do
      let (s, rest) ← string rest
      .ok (.string s, rest)
    | '[' =>
      match depth with
      | 0 => .error .malformed
      | depth + 1 => do
        let item (done : List Json) : Reader (List Json) := fun text => do
          let (v, text) ← value depth text
          .ok (v :: done, text)
        let (reversed, rest) ← items ']' item (rest.length + 1) true [] rest
        .ok (.array reversed.reverse, rest)
    | '\x7b' =>
      match depth with
      | 0 => .error .malformed
      | depth + 1 => do
        let member (done : List (String × Json)) : Reader (List (String × Json)) := fun text => do
          let (key, text) ← memberKey text
          let (v, text) ← value depth (← colon text)
          .ok (Keyed.insert key v done, text)
        let (members, rest) ← items '\x7d' member (rest.length + 1) true [] rest
        .ok (.object members, rest)
    | _ =>
      if c = '-' ∨ c.isDigit then do
        let (n, rest) ← number (c :: rest)
        .ok (.number n, rest)
      else .error .malformed

end Reader

/-- How deep arrays and objects nest in a text. -/
def maxDepth : Nat := 127

/-- Nothing but blanks is left of a text. -/
def finish (text : List Char) : Except Fault Unit :=
  if (Reader.skipBlank text).isEmpty then .ok () else .error .malformed

/-- Reads a whole text with `reader`, allowing blanks after the value. -/
def whole {α : Type} (reader : Reader α) (text : String) : Except Fault α := do
  let (a, rest) ← reader text.toList
  finish rest
  .ok a

/-- The value that a text holds. -/
def parse (text : String) : Except Fault Json := whole (Reader.value maxDepth) text

end PropertyTree.Json
