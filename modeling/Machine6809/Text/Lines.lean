import Machine6809.Text.Pieces

/-!
# Lines of a text

A text is cut at its line feeds. A carriage return right before a line feed belongs to the line
end; one at the very end of the text does not, for no line feed follows it.
-/

namespace Machine6809

/-- The line without a carriage return at its end. -/
def dropReturn (line : List Char) : List Char :=
  if line.getLast? = some '\r' then line.dropLast else line

/-- The lines of a text. What follows the last line feed counts as a line. -/
def linesOf (text : List Char) : List (List Char) :=
  let pieces := cutAt '\n' text
  pieces.dropLast.map dropReturn ++ pieces.getLast?.toList

end Machine6809
