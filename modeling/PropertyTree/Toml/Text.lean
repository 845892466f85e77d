import PropertyTree.Json.Reader
/-!
# Strings and keys of TOML text

A TOML reader gives a result with the rest of the text, or nothing when the text is no TOML. Control
characters other than the tab are never allowed inside strings. A multi-line string drops a line
break right after its opening quotes, ends each line by a line feed alone, and may have one or two
quotes right before its closing ones.
-/

namespace PropertyTree.Toml

/-- A reader of a part of a TOML text. -/
abbrev Reader (α : Type) := List Char → Option (α × List Char)

namespace Reader

/-- A blank inside a line. -/
def isBlank (c : Char) : Bool := c == ' ' || c == '\t'

/-- The text without the blanks in front. -/
def skipBlank (text : List Char) : List Char := text.dropWhile isBlank

/-- A character that may stand in a comment or, unescaped, in a string. -/
def isPlain (c : Char) : Bool := c == '\t' || (0x20 ≤ c.toNat && c.toNat != 0x7F)

/-- The text after a line break in front. -/
def newline? : List Char → Option (List Char)
  | '\n' :: rest => some rest
  | '\r' :: '\n' :: rest => some rest
  | _ => none

/-- The text after the given characters in front. -/
def after? : List Char → List Char → Option (List Char)
  | [], rest => some rest
  | _ :: _, [] => none
  | w :: word, c :: rest => if w = c then after? word rest else none

/-- The text without the blanks and line breaks in front. -/
def skipSpace (fuel : Nat) (text : List Char) : List Char :=
  match fuel with
  | 0 => text
  | fuel + 1 =>
    let text := skipBlank text
    match newline? text with
    | some rest => skipSpace fuel rest
    | none => text

/-- The character with the code point that `count` hexadecimal digits give. -/
def codePoint (count : Nat) : Reader Char := fun text => do
  let digits := text.take count
  if digits.length < count then none
  else
    let values ← digits.mapM Json.Reader.hexDigit?
    let code := values.foldl (fun n d => 16 * n + d) 0
    if code.isValidChar then some (.ofNat code, text.drop count) else none

/-- The character of an escape, after its backslash. -/
def escaped : Reader Char
  | [] => none
  | c :: rest =>
    match c with
    | 'b' => some ('\x08', rest)
    | 't' => some ('\t', rest)
    | 'n' => some ('\n', rest)
    | 'f' => some ('\x0c', rest)
    | 'r' => some ('\r', rest)
    | '"' => some ('"', rest)
    | '\\' => some ('\\', rest)
    | 'u' => codePoint 4 rest
    | 'U' => codePoint 8 rest
    | _ => none

/-- The rest of a one-line string up to the quote `mark`; escapes are read if `escapes` says so. -/
def lineBody (mark : Char) (escapes : Bool) (fuel : Nat) (done : List Char) : Reader String :=
  fun text =>
    match fuel, text with
    | 0, _ | _, [] => none
    | fuel + 1, c :: rest =>
      if c = mark then some (.ofList done.reverse, rest)
      else if escapes && c == '\\' then do
        let (c, rest) ← escaped rest
        lineBody mark escapes fuel (c :: done) rest
      else if isPlain c then lineBody mark escapes fuel (c :: done) rest
      else none

/-- The rest of a multi-line string up to three quotes `mark`. -/
def blockBody (mark : Char) (escapes : Bool) (fuel : Nat) (done : List Char) : Reader String :=
  fun text =>
    match fuel with
    | 0 => none
    | fuel + 1 =>
      match after? [mark, mark, mark] text with
      | some rest =>
        let extra := min 2 (rest.takeWhile (· == mark)).length
        some (.ofList (done.reverse ++ List.replicate extra mark), rest.drop extra)
      | none =>
        match newline? text with
        | some rest => blockBody mark escapes fuel ('\n' :: done) rest
        | none =>
          match text with
          | [] => none
          | c :: rest =>
            if escapes && c == '\\' then
              match newline? (skipBlank rest) with
              | some rest => blockBody mark escapes fuel done (skipSpace rest.length rest)
              | none => do
                let (c, rest) ← escaped rest
                blockBody mark escapes fuel (c :: done) rest
            else if isPlain c then blockBody mark escapes fuel (c :: done) rest
            else none

/-- The rest of a string that was opened by one quote `mark`. -/
def string (mark : Char) : Reader String := fun text =>
  let escapes := mark == '"'
  match after? [mark, mark] text with
  | some rest =>
    let body := (newline? rest).getD rest
    blockBody mark escapes (body.length + 1) [] body
  | none => lineBody mark escapes (text.length + 1) [] text

/-- A character of a key without quotes. -/
def isBareKey (c : Char) : Bool := c.isAlphanum || c == '_' || c == '-'

/-- One part of a key. -/
def keyPart : Reader String := fun text =>
  match text with
  | '"' :: rest => lineBody '"' true (rest.length + 1) [] rest
  | '\x27' :: rest => lineBody '\x27' false (rest.length + 1) [] rest
  | _ =>
    let bare := text.takeWhile isBareKey
    if bare.isEmpty then none else some (.ofList bare, text.dropWhile isBareKey)

/-- The most parts of a key. -/
def maxKeyParts : Nat := 79

/-- The parts of a key between dots, with blanks around them. -/
def keyParts (fuel : Nat) : Reader (List String) := fun text =>
  match fuel with
  | 0 => none
  | fuel + 1 => do
    let (part, rest) ← keyPart (skipBlank text)
    match skipBlank rest with
    | '.' :: rest => do
      let (parts, rest) ← keyParts fuel rest
      some (part :: parts, rest)
    | rest => some ([part], rest)

/-- A key as its last part and the parts before it. -/
def key : Reader (List String × String) := fun text => do
  let (parts, rest) ← keyParts maxKeyParts text
  let last ← parts.getLast?
  some ((parts.dropLast, last), rest)

end Reader

end PropertyTree.Toml
