/-! # Positions

A place in a source as a line and a column. Both count from one for the places a
reader reaches itself; a caller may name any other place.
-/

namespace Jack

/-- A line and a column. -/
structure Position where
  line : Int
  column : Int
  deriving Repr, DecidableEq

namespace Position

/-- The place of the first character of a source. -/
def start : Position := ⟨1, 1⟩

/-- The place right after a character. Only a line feed starts a line. -/
def after (p : Position) (c : Char) : Position :=
  if c == '\n' then ⟨p.line + 1, 1⟩ else ⟨p.line, p.column + 1⟩

end Position

end Jack
