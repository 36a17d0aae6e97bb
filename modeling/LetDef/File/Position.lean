/-!
# Lines and columns

`Position.locate` turns the index of a character into a line and a column, both counted from one.
A line ends with a line feed or with a carriage return.  The two in a row end one line only: the
carriage return then still belongs to the line, so it counts as a column of it.
-/

namespace LetDef

/-- A line and a column, both counted from one. -/
structure Position where
  /-- The line, counted from one. -/
  line : Nat
  /-- The column, counted from one. -/
  column : Nat
deriving DecidableEq

namespace Position

/-- Where every text begins. -/
def origin : Position := ⟨1, 1⟩

/-- One column further on the same line. -/
def nextColumn (p : Position) : Position := { p with column := p.column + 1 }

/-- The first column of the next line. -/
def nextLine (p : Position) : Position := ⟨p.line + 1, 1⟩

/-- Walks from `p` over at most `offset` characters. -/
def walk (p : Position) : List Char → Nat → Position
  | [], _ => p
  | _ :: _, 0 => p
  | '\r' :: '\n' :: rest, offset + 1 => walk p.nextColumn ('\n' :: rest) offset
  | c :: rest, offset + 1 =>
    walk (if c = '\n' ∨ c = '\r' then p.nextLine else p.nextColumn) rest offset

/-- The line and column of the character with index `offset`; an index past the end of the text
gives the place just after its last character. -/
def locate (text : String) (offset : Nat) : Position :=
  walk origin text.toList offset

/-- The usual spelling, line before column. -/
def render (p : Position) : String :=
  toString p.line ++ ":" ++ toString p.column

end Position

end LetDef
