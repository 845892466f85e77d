import PropertyTree.Decimal.Layout
import PropertyTree.Toml.Value
/-!
# TOML text of a table

Tables inside tables get headers of their own, and so do the tables of an array that holds nothing
else; all other values are written in place. A table whose members all have headers needs none
itself. An array of two or more items has one item a line. A string is written in the first of four
forms that holds it without an escape, and only if there is none with escapes.
-/

namespace PropertyTree.Toml

/-- Floats are always written positionally. -/
def floatLayout : Decimal.Layout := ⟨fun _ => true, .away⟩

/-- The text of a float. -/
def floatText : Extended64 → String
  | .finite f => floatLayout.render f
  | .infinite negative => if negative then "-inf" else "inf"
  | .nan => "nan"

/-- A control character that no string on one line holds as it is. A tab may stand in a string. -/
def isControl (c : Char) : Bool := (c.toNat < 0x20 && c != '\t') || c.toNat == 0x7F

/-- The length of the longest run of a character. -/
def longestRunOf (mark : Char) (text : List Char) : Nat :=
  (text.foldl (fun (longest, run) c =>
    if c = mark then (max longest (run + 1), run + 1) else (longest, 0)) (0, 0)).1

/-- The escape of a character other than a quote. Strings over several lines keep their line
feeds. -/
def escape (multiline : Bool) (c : Char) : List Char :=
  match c with
  | '\x08' => ['\\', 'b']
  | '\t' => ['\\', 't']
  | '\n' => if multiline then ['\n'] else ['\\', 'n']
  | '\x0c' => ['\\', 'f']
  | '\r' => ['\\', 'r']
  | '\\' => ['\\', '\\']
  | c =>
    if isControl c then
      '\\' :: 'u' :: '0' :: '0' ::
        [(Nat.digitChar (c.toNat / 16)).toUpper, (Nat.digitChar (c.toNat % 16)).toUpper]
    else [c]

/-- One of the four ways to write a string: with or without escapes, on one line or over several. -/
structure StringForm where
  /-- A backslash starts an escape. -/
  escapes : Bool
  /-- Line feeds may stand in the string. -/
  multiline : Bool
deriving DecidableEq, Repr

namespace StringForm

/-- The quote that encloses a string of this form. -/
def mark (form : StringForm) : Char := if form.escapes then '"' else '\x27'

/-- The longest run of its own mark that a string of this form holds. One more would end it. -/
def longestRun (form : StringForm) : Nat := if form.multiline then 2 else 0

/-- What stands before and after the body. -/
def fence (form : StringForm) : List Char := List.replicate (form.longestRun + 1) form.mark

/-- The form holds the text as it is, without one escape. -/
def suits (form : StringForm) (text : List Char) : Bool :=
  text.all (fun c => (form.multiline && c == '\n') || !isControl c) &&
    !(form.escapes && text.contains '\\') &&
    longestRunOf form.mark text ≤ form.longestRun

/-- The body of a string with escapes, after a run of `run` bare quotes. A quote is escaped where
the run would become longer than the form holds. -/
def escapedBody (form : StringForm) (run : Nat) : List Char → List Char
  | [] => []
  | c :: rest =>
    if c = '"' then
      if run < form.longestRun then c :: form.escapedBody (run + 1) rest
      else '\\' :: c :: form.escapedBody 0 rest
    else escape form.multiline c ++ form.escapedBody 0 rest

/-- The text as a string of this form. A text with line feeds starts on a line of its own; the line
feed before it is not part of the string. -/
def write (form : StringForm) (text : List Char) : String :=
  let opening := form.fence ++ if form.multiline && text.contains '\n' then ['\n'] else []
  let body := if form.escapes then form.escapedBody 0 text else text
  String.ofList (opening ++ body ++ form.fence)

/-- The forms on one line, the preferred one first. -/
def onOneLine : List StringForm := [⟨true, false⟩, ⟨false, false⟩]

/-- The forms over several lines, the preferred one first. -/
def overLines : List StringForm := [⟨true, true⟩, ⟨false, true⟩]

end StringForm

/-- A string value, in the first form that holds it without an escape. If there is none it has
escapes, and stands over several lines where it has line feeds. -/
def quote (value : String) : String :=
  let text := value.toList
  let form := (StringForm.onOneLine ++ StringForm.overLines).find? (·.suits text)
  (form.getD ⟨true, text.contains '\n'⟩).write text

/-- A key: bare where it may be, else in quotes on one line, without escapes if possible. -/
def keyText (key : String) : String :=
  let text := key.toList
  if !text.isEmpty && text.all (fun c => c.isAlphanum || c == '_' || c == '-') then key
  else
    let form := StringForm.onOneLine.find? (·.suits text)
    (form.getD ⟨true, false⟩).write text

/-- The text of an array with the given items. -/
def arrayText (items : List String) : String :=
  match items with
  | [] => "[]"
  | [item] => "[" ++ item ++ "]"
  | items => "[" ++ String.join (items.map fun item => "\n    " ++ item ++ ",") ++ "\n]"

mutual

/-- The text of a value in place. -/
def inline : Toml → String
  | .string value => quote value
  | .integer value _ => toString value
  | .float value => floatText value
  | .boolean value => toString value
  | .datetime text => text
  | .array items => arrayText (inlineItems items)
  | .table members =>
    if members.isEmpty then "\x7b\x7d"
    else "\x7b " ++ ", ".intercalate (inlineMembers members) ++ " \x7d"

/-- The texts of the items in place. -/
def inlineItems : List Toml → List String
  | [] => []
  | item :: rest => item.inline :: inlineItems rest

/-- The texts of the members in place. -/
def inlineMembers : List (String × Toml) → List String
  | [] => []
  | (key, value) :: rest => (keyText key ++ " = " ++ value.inline) :: inlineMembers rest

end

/-- The value is a table. -/
def isTable : Toml → Bool
  | .table _ => true
  | _ => false

/-- The value gets headers of its own. -/
def hasHeader : Toml → Bool
  | .table _ => true
  | .array items => !items.isEmpty && items.all isTable
  | _ => false

/-- The lines of the members that are written in place. -/
def lines (members : List (String × Toml)) : List String :=
  members.filterMap fun (key, value) =>
    if value.hasHeader then none else some (keyText key ++ " = " ++ value.inline ++ "\n")

/-- The dotted path of a header. -/
def pathText (path : List String) : String := ".".intercalate (path.map keyText)

/-- The part of the text that a table has under its own header, if it is shown at all. -/
def tableBlock (path : List String) (members : List (String × Toml)) : List String :=
  let own := lines members
  if members.isEmpty || !own.isEmpty then ["[" ++ pathText path ++ "]\n" ++ String.join own]
  else []

mutual

/-- The parts of the text for the members with headers, below a path. -/
def blocks (path : List String) : List (String × Toml) → List String
  | [] => []
  | (key, .table members) :: rest =>
    tableBlock (path ++ [key]) members ++ blocks (path ++ [key]) members ++ blocks path rest
  | (key, .array items) :: rest =>
    (if hasHeader (.array items) then elementBlocks (path ++ [key]) items else [])
      ++ blocks path rest
  | _ :: rest => blocks path rest

/-- The parts of the text for the tables of an array. -/
def elementBlocks (path : List String) : List Toml → List String
  | [] => []
  | .table members :: rest =>
    ("[[" ++ pathText path ++ "]]\n" ++ String.join (lines members))
      :: blocks path members ++ elementBlocks path rest
  | _ :: rest => elementBlocks path rest

end

/-- The text of a document. An empty line stands before every header but the first. -/
def render (members : List (String × Toml)) : String :=
  let own := lines members
  let first := if own.isEmpty then [] else [String.join own]
  "\n".intercalate (first ++ blocks [] members)

end PropertyTree.Toml
