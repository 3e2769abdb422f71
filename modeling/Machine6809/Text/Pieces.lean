/-!
# Pieces of a text

A text is cut at each place where a separator stands (`cutAt`). There is one piece more than there
are separators, so that a separator at an end of the text leaves an empty piece there.
-/

namespace Machine6809

/-- A character in front of the first of some pieces; a separator begins a new one. -/
def consPiece (separator c : Char) (pieces : List (List Char)) : List (List Char) :=
  if c = separator then [] :: pieces
  else
    match pieces with
    | [] => [[c]]
    | piece :: rest => (c :: piece) :: rest

/-- The pieces of a text between its separators. -/
def cutAt (separator : Char) (text : List Char) : List (List Char) :=
  text.foldr (consPiece separator) [[]]

end Machine6809
