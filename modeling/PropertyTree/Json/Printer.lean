import PropertyTree.Decimal.Layout
import PropertyTree.Json.Basic
/-!
# JSON text of a value

Two forms are written: the compact form, without blanks, and the indented form, two blanks a level
and one item a line. Members are written in the order in which the object lists them.
-/

namespace PropertyTree

/-- Floats are written positionally from `0.00001` up to below `10 ^ 16`, else with an exponent. -/
def Json.floatLayout : Decimal.Layout := ⟨fun e => -5 ≤ e && e < 16, .toEven⟩

/-- The JSON text of a number. -/
def Number.render : Number → String
  | .whole n _ => toString n
  | .float f => Json.floatLayout.render f

namespace Json

/-- The escape of a character inside a quoted string; only the quote, the backslash and the control
characters have one. -/
def escape (c : Char) : List Char :=
  match c with
  | '"' => ['\\', '"']
  | '\\' => ['\\', '\\']
  | '\x08' => ['\\', 'b']
  | '\x0c' => ['\\', 'f']
  | '\n' => ['\\', 'n']
  | '\r' => ['\\', 'r']
  | '\t' => ['\\', 't']
  | c =>
    if c.toNat < 0x20 then
      ['\\', 'u', '0', '0', Nat.digitChar (c.toNat / 16), Nat.digitChar (c.toNat % 16)]
    else [c]

/-- A string in quotes. -/
def quote (text : String) : String :=
  .ofList ('"' :: text.toList.flatMap escape ++ ['"'])

mutual

/-- The text of a value without blanks. -/
def compact : Json → String
  | .null => "null"
  | .bool value => toString value
  | .number value => value.render
  | .string value => quote value
  | .array items => "[" ++ ",".intercalate (compactItems items) ++ "]"
  | .object members => "\x7b" ++ ",".intercalate (compactMembers members) ++ "\x7d"

/-- The texts of the items. -/
def compactItems : List Json → List String
  | [] => []
  | item :: rest => item.compact :: compactItems rest

/-- The texts of the members. -/
def compactMembers : List (String × Json) → List String
  | [] => []
  | (key, value) :: rest => (quote key ++ ":" ++ value.compact) :: compactMembers rest

end

/-- The line break before a line at this level. -/
def newline (level : Nat) : String := "\n" ++ .ofList (List.replicate (2 * level) ' ')

/-- Items, one a line, between two brackets. -/
def block (openMark closeMark : String) (level : Nat) (items : List String) : String :=
  openMark ++ ",".intercalate (items.map (newline (level + 1) ++ ·)) ++ newline level ++ closeMark

mutual

/-- The indented text of a value whose brackets stand at the given level. -/
def pretty (level : Nat) : Json → String
  | .array items =>
    if items.isEmpty then "[]" else block "[" "]" level (prettyItems (level + 1) items)
  | .object members =>
    if members.isEmpty then "\x7b\x7d"
    else block "\x7b" "\x7d" level (prettyMembers (level + 1) members)
  | .null => "null"
  | .bool value => toString value
  | .number value => value.render
  | .string value => quote value

/-- The indented texts of the items. -/
def prettyItems (level : Nat) : List Json → List String
  | [] => []
  | item :: rest => item.pretty level :: prettyItems level rest

/-- The indented texts of the members. -/
def prettyMembers (level : Nat) : List (String × Json) → List String
  | [] => []
  | (key, value) :: rest =>
    (quote key ++ ": " ++ value.pretty level) :: prettyMembers level rest

end

end Json

end PropertyTree
