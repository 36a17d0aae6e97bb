import Mathlib
import LetDef.Literal.Quoted
import LetDef.Program.Basic

/-!
# Programs as text

`Program.render` writes a program down as its words with one space between them.  The words are
those that the grammar asks for: nothing is put in parentheses that is not a group, and an `ELSE`
stands only before a block that is not empty.

Of the many ways to write a value it takes a fixed one.  Integers have a sign only if they are
negative, decimals have all their digits and no exponent, and of the characters between quotes only
those are escaped that could not stand there otherwise.
-/

namespace LetDef

/-! ## Values -/

/-- A character as it stands between two delimiters. -/
def Quoted.escape (delimiter c : Char) : List Char :=
  if c = delimiter ∨ c = '\\' then ['\\', c]
  else if c = '\n' then ['\\', 'n']
  else if c = '\r' then ['\\', 'r']
  else [c]

/-- Characters with a delimiter on either side. -/
def Quoted.encode (delimiter : Char) (cs : List Char) : List Char :=
  delimiter :: (cs.flatMap (escape delimiter) ++ [delimiter])

/-- The digits of a number with as many of them behind the point as its scale says. -/
def Decimal.plain (d : Decimal) : List Char :=
  (if d.unscaled < 0 then ['-'] else []) ++
    pointed (Numeral.ofNat d.unscaled.natAbs) d.scale.toNat

/-- The word for a value. -/
def Literal.word : Literal → String
  | nil => "NIL"
  | bool true => "TRUE"
  | bool false => "FALSE"
  | integer value => String.ofList (Numeral.ofInt value)
  | decimal value => String.ofList value.plain
  | character value => String.ofList (Quoted.encode '\'' [value])
  | string value => String.ofList (Quoted.encode '"' value.toList)

/-! ## Expressions -/

mutual

/-- The words of an expression. -/
def Expr.words : Expr → List String
  | .literal value => [value.word]
  | .group inner => "(" :: (inner.words ++ [")"])
  | .binary operator left right => left.words ++ operator :: right.words
  | .var name => [name]
  | .member receiver name => receiver.words ++ [".", name]
  | .call name arguments => name :: "(" :: (Expr.listWords arguments ++ [")"])
  | .invoke receiver name arguments =>
    receiver.words ++ "." :: name :: "(" :: (Expr.listWords arguments ++ [")"])

/-- The words of expressions with commas between them. -/
def Expr.listWords : List Expr → List String
  | [] => []
  | [e] => e.words
  | e :: f :: es => e.words ++ "," :: Expr.listWords (f :: es)

end

/-! ## Statements -/

/-- The words of a type, if there is one, with a colon before it. -/
def typeWords : Option String → List String
  | none => []
  | some typeName => [":", typeName]

/-- The words of a value, if there is one, with an equals sign before it. -/
def valueWords : Option Expr → List String
  | none => []
  | some e => "=" :: e.words

/-- The words of a field, or of a declaration among statements. -/
def Binding.words (b : Binding) : List String :=
  "LET" :: b.name :: (typeWords b.typeName ++ (valueWords b.value ++ [";"]))

mutual

/-- The words of a statement. -/
def Stmt.words : Stmt → List String
  | .expression value => value.words ++ [";"]
  | .declaration binding => binding.words
  | .assignment receiver value => receiver.words ++ "=" :: (value.words ++ [";"])
  | .conditional condition thenBlock elseBlock =>
    "IF" :: (condition.words ++ "DO" :: (Stmt.blockWords thenBlock ++
      ((if elseBlock.isEmpty then [] else "ELSE" :: Stmt.blockWords elseBlock) ++ ["END"])))
  | .forEach name value body =>
    "FOR" :: name :: "IN" :: (value.words ++ "DO" :: (Stmt.blockWords body ++ ["END"]))
  | .whileLoop condition body =>
    "WHILE" :: (condition.words ++ "DO" :: (Stmt.blockWords body ++ ["END"]))
  | .result none => ["RETURN", ";"]
  | .result (some value) => "RETURN" :: (value.words ++ [";"])

/-- The words of statements, one after the other. -/
def Stmt.blockWords : List Stmt → List String
  | [] => []
  | s :: ss => s.words ++ Stmt.blockWords ss

end

/-! ## Programs -/

/-- The words of a method. -/
def Method.words (m : Method) : List String :=
  "DEF" :: m.name :: "(" :: (m.parameters.intersperse "," ++
    ")" :: "DO" :: (Stmt.blockWords m.statements ++ ["END"]))

/-- The words of a program. -/
def Program.words (p : Program) : List String :=
  p.fields.flatMap Binding.words ++ p.methods.flatMap Method.words

/-- The text of a program: its words with one space between them. -/
def Program.render (p : Program) : String :=
  " ".intercalate p.words

end LetDef
