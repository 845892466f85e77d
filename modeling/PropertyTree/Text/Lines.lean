/-!
# Lines of a text

A line ends at a line feed, or where the text ends; a carriage return before the line feed belongs
to the ending. A text that ends with a line feed has no further, empty line.
-/

namespace PropertyTree.Text

/-- The characters of the lines of a text. -/
def lineChars : List Char → List (List Char)
  | [] => []
  | '\n' :: rest => [] :: lineChars rest
  | '\r' :: '\n' :: rest => [] :: lineChars rest
  | c :: rest =>
    match lineChars rest with
    | [] => [[c]]
    | line :: others => (c :: line) :: others

/-- The lines of a text. -/
def lines (text : String) : List String := (lineChars text.toList).map .ofList

end PropertyTree.Text
