/-!
# Lines

Cutting a text into lines.
-/

namespace SchemaPlan.Text

/-- Puts a character in front of the first line. -/
def growFirst (c : Char) : List (List Char) → List (List Char)
  | [] => [[c]]
  | first :: rest => (c :: first) :: rest

/-- The lines of a text. A line ends before a line feed, or a carriage return and line feed. -/
def lines : List Char → List (List Char)
  | [] => [[]]
  | '\r' :: '\n' :: cs => [] :: lines cs
  | c :: cs => if c = '\n' then [] :: lines cs else growFirst c (lines cs)

end SchemaPlan.Text
