import PropertyTree.Decimal.Shortest
import PropertyTree.Toml.Datetime
import PropertyTree.Toml.Draft
/-!
# Reading TOML text

A document is a list of statements, one a line: headers, and values under dotted keys. The
statements are read first and then filled into a table in the making. Arrays and inline tables nest
at most as deep as the reader allows.
-/

namespace PropertyTree.Toml

namespace Reader

/-- Digits with single underscores between them. -/
def groupedDigits (isDigit : Char → Bool) (fuel : Nat) : Reader (List Char) := fun text =>
  match fuel, text with
  | fuel + 1, c :: rest =>
    if isDigit c then
      match rest with
      | '_' :: more => do
        let (digits, rest) ← groupedDigits isDigit fuel more
        some (c :: digits, rest)
      | next :: _ =>
        if isDigit next then do
          let (digits, rest) ← groupedDigits isDigit fuel rest
          some (c :: digits, rest)
        else some ([c], rest)
      | [] => some ([c], [])
    else none
  | _, _ => none

/-- Digits of a number in a given base. -/
def digitsOf (isDigit : Char → Bool) : Reader (List Char) := fun text =>
  groupedDigits isDigit text.length text

/-- A sign, if one is written: whether it is a minus. -/
def sign : List Char → Bool × List Char
  | '-' :: rest => (true, rest)
  | '+' :: rest => (false, rest)
  | rest => (false, rest)

/-- The exponent of a float, if one is written. -/
def exponent : Reader (Option Int) := fun text =>
  match text with
  | 'e' :: rest | 'E' :: rest => do
    let (negative, rest) := sign rest
    let (digits, rest) ← digitsOf Char.isDigit rest
    let size : Int := Json.Reader.naturalOf digits
    some (some (if negative then -size else size), rest)
  | _ => some (none, text)

/-- The digits after a point, if one is written. -/
def fraction : Reader (Option (List Char)) := fun text =>
  match text with
  | '.' :: rest => do
    let (digits, rest) ← digitsOf Char.isDigit rest
    some (some digits, rest)
  | _ => some (none, text)

/-- A float by its decimal. Beyond the finite range only negative ones are read. -/
def floatOf (negative : Bool) (decimal : Decimal) : Option Toml :=
  match decimal.toBinary64? negative with
  | some f => some (.float (.finite f))
  | none => if negative then some (.float (.infinite true)) else none

/-- A whole number in base two, eight or sixteen, after its mark. -/
def radixInteger (base : Nat) : Reader Toml := fun text => do
  let isDigit (c : Char) : Bool :=
    match Json.Reader.hexDigit? c with
    | some d => d < base
    | none => false
  let (digits, rest) ← digitsOf isDigit text
  let values ← digits.mapM Json.Reader.hexDigit?
  let value ← ofInt? (values.foldl (fun n d => base * n + d) 0 : Nat)
  some (value, rest)

/-- An integer or a float. A whole part other than zero does not begin with a zero. -/
def number : Reader Toml := fun text => do
  let (negative, text) := sign text
  match text with
  | 'i' :: 'n' :: 'f' :: rest => some (.float (.infinite negative), rest)
  | 'n' :: 'a' :: 'n' :: rest => some (.float .nan, rest)
  | _ =>
    let (whole, text) ← digitsOf Char.isDigit text
    if whole.head? = some '0' ∧ 1 < whole.length then none
    else
      let (places, text) ← fraction text
      let (power, text) ← exponent text
      if places.isNone && power.isNone then
        let size : Int := Json.Reader.naturalOf whole
        let value ← ofInt? (if negative then -size else size)
        some (value, text)
      else
        let places := places.getD []
        let value ← floatOf negative
          ⟨Json.Reader.naturalOf (whole ++ places), power.getD 0 - places.length⟩
        some (value, text)

/-- A value other than an array or a table. -/
def scalar : Reader Toml := fun text =>
  match text with
  | '"' :: rest => (string '"' rest).map fun (s, rest) => (.string s, rest)
  | '\x27' :: rest => (string '\x27' rest).map fun (s, rest) => (.string s, rest)
  | 't' :: rest => (after? ['r', 'u', 'e'] rest).map (.boolean true, ·)
  | 'f' :: rest => (after? ['a', 'l', 's', 'e'] rest).map (.boolean false, ·)
  | '0' :: 'x' :: rest => radixInteger 16 rest
  | '0' :: 'o' :: rest => radixInteger 8 rest
  | '0' :: 'b' :: rest => radixInteger 2 rest
  | _ =>
    if startsDate text || startsTime text then
      (datetime text).map fun (s, rest) => (.datetime s, rest)
    else number text

/-- The text after a comment in front, up to its line break. -/
def skipComment (text : List Char) : List Char :=
  match text with
  | '#' :: rest => rest.dropWhile isPlain
  | _ => text

/-- The text without blanks, line breaks and comments in front. -/
def skipLines (fuel : Nat) (text : List Char) : List Char :=
  match fuel with
  | 0 => text
  | fuel + 1 =>
    let text := skipComment (skipBlank text)
    match newline? text with
    | some rest => skipLines fuel rest
    | none => text

/-- The items of an array up to its closing bracket. A comma may follow the last. -/
def arrayItems (value : Reader Toml) (fuel : Nat) (done : List Toml) : Reader (List Toml) :=
  fun text =>
    match fuel with
    | 0 => none
    | fuel + 1 =>
      match skipLines text.length text with
      | ']' :: rest => some (done.reverse, rest)
      | text => do
        let (item, rest) ← value text
        match skipLines rest.length rest with
        | ',' :: rest => arrayItems value fuel (item :: done) rest
        | ']' :: rest => some ((item :: done).reverse, rest)
        | _ => none

/-- A dotted key with its value. -/
def keyed (value : Reader Toml) : Reader ((List String × String) × Toml) := fun text => do
  let (key, rest) ← key text
  let rest ← after? ['='] (skipBlank rest)
  let (v, rest) ← value (skipBlank rest)
  some ((key, v), rest)

/-- The members of an inline table up to its closing brace. No comma follows the last. -/
def inlineMembers (value : Reader Toml) (fuel : Nat) (done : Draft.Members) :
    Reader Draft.Members := fun text =>
  match fuel with
  | 0 => none
  | fuel + 1 => do
    let (((parents, key), v), rest) ← keyed value text
    let done ← Draft.put parents key v done
    match skipBlank rest with
    | ',' :: rest => inlineMembers value fuel done rest
    | '\x7d' :: rest => some (done, rest)
    | _ => none

/-- A value in which arrays and inline tables nest at most `depth` deep. -/
def value (depth : Nat) : Reader Toml := fun text =>
  match depth, text with
  | 0, '[' :: _ | 0, '\x7b' :: _ => none
  | depth + 1, '[' :: rest =>
    (arrayItems (value depth) (rest.length + 1) [] rest).map fun (items, rest) =>
      (.array items, rest)
  | depth + 1, '\x7b' :: rest =>
    match skipBlank rest with
    | '\x7d' :: rest => some (.table [], rest)
    | rest =>
      (inlineMembers (value depth) (rest.length + 1) [] rest).map fun (members, rest) =>
        (.table (Draft.finishMembers members), rest)
  | _, text => scalar text

/-- How deep arrays and inline tables nest in a text. -/
def maxDepth : Nat := 79

/-- The text after the end of a line in front, perhaps with a comment. -/
def lineEnd? (text : List Char) : Option (List Char) :=
  match skipComment (skipBlank text) with
  | [] => some []
  | text => newline? text

end Reader

/-- One line of a document. -/
inductive Statement where
  | openTable (parents : List String) (key : String)
  | openElement (parents : List String) (key : String)
  | put (parents : List String) (key : String) (value : Toml)

namespace Statement

open Reader

/-- Reads a header, after its opening brackets. -/
def header (closing : List Char) (make : List String → String → Statement) : Reader Statement :=
  fun text => do
    let ((parents, key), rest) ← key text
    some (make parents key, ← lineEnd? (← after? closing (skipBlank rest)))

/-- Reads a statement up to the end of its line. -/
def read : Reader Statement := fun text =>
  match text with
  | '[' :: '[' :: rest => header [']', ']'] .openElement rest
  | '[' :: rest => header [']'] .openTable rest
  | _ => do
    let (((parents, key), value), rest) ← keyed (value maxDepth) text
    some (.put parents key value, ← lineEnd? rest)

/-- Reads all statements of a text; blank lines and comments are skipped. -/
def readAll (fuel : Nat) (text : List Char) : Option (List Statement) :=
  match fuel with
  | 0 => none
  | fuel + 1 =>
    match skipLines text.length text with
    | [] => some []
    | text => do
      let (statement, rest) ← read text
      let others ← readAll fuel rest
      some (statement :: others)

/-- Fills statements into a table in the making; `current` is the path of the open table. -/
def fill : List Statement → List String → Draft.Members → Option Draft.Members
  | [], _, members => some members
  | statement :: rest, current, members =>
    match statement with
    | .openTable parents key => do
      fill rest (parents ++ [key]) (← Draft.openTable parents key members)
    | .openElement parents key => do
      fill rest (parents ++ [key]) (← Draft.openElement parents key members)
    | .put parents key value => do
      fill rest current (← Draft.putAt current parents key value members)

end Statement

/-- The table that a document describes; none when the text is no TOML. -/
def parse (text : String) : Option Toml := do
  let chars := match text.toList with
    | '\ufeff' :: rest => rest
    | chars => chars
  let statements ← Statement.readAll (chars.length + 1) chars
  let members ← Statement.fill statements [] []
  some (.table (Draft.finishMembers members))

end PropertyTree.Toml
