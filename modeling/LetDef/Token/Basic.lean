/-!
# Tokens

A token is a stretch of a text together with what it was taken for.  Its literal is the stretch
itself, with delimiters and escapes as they were spelled, so a token never forgets how it was
written.
-/

namespace LetDef

/-- What a token was taken for. -/
inductive Token.Kind where
  /-- A name or a keyword. -/
  | identifier
  /-- Digits, possibly after a sign. -/
  | integer
  /-- Digits, a point and digits, possibly after a sign. -/
  | decimal
  /-- One character between single quotes. -/
  | character
  /-- Characters between double quotes. -/
  | string
  /-- Anything else: a single character, or a comparison that ends in an equals sign. -/
  | operator
deriving DecidableEq

/-- A stretch of a text and what it was taken for. -/
structure Token where
  /-- What the stretch was taken for. -/
  kind : Token.Kind
  /-- The characters of the stretch. -/
  literal : String
  /-- The index of its first character. -/
  offset : Nat
deriving DecidableEq

namespace Token

/-- The name under which a kind is written down. -/
def Kind.name : Kind → String
  | identifier => "Identifier"
  | integer => "Integer"
  | decimal => "Decimal"
  | character => "Character"
  | string => "String"
  | operator => "Operator"

/-- How a kind is shown to a reader. -/
def Kind.caption : Kind → String
  | identifier => "IDENTIFIER"
  | integer => "INTEGER"
  | decimal => "DECIMAL"
  | character => "CHARACTER"
  | string => "STRING"
  | operator => "OPERATOR"

/-- How a token is shown to a reader. -/
def caption (token : Token) : String :=
  token.kind.caption ++ " `" ++ token.literal ++ "`"

/-- The index just past the last character of the token. -/
def endOffset (token : Token) : Nat :=
  token.offset + token.literal.length

end Token

end LetDef
