import LetDef.Grammar.Rule
import LetDef.Literal.Decimal
import LetDef.Literal.Quoted
import LetDef.Program.Basic

/-!
# Reading expressions

Operators bind at four levels.  Each level is a sequence of operands of the next tighter level with
operators of its own between them, and it nests to the left.  Below them come chains of members and
calls after points, and last the primary expressions, which the first token decides on: `Opening`
lists what a token can open.

Groups and arguments hold whole expressions.  Every rule here takes the rule for those as a
parameter and is as general as that one, and `expression` ties the knot: it may nest as often as its
limit says, and it fails where it would have to nest deeper.  So the recursion is on the limit
alone.
-/

namespace LetDef

/-! ## Operators -/

/-- How tightly an operator binds. -/
inductive Level where
  /-- The loosest operators. -/
  | logical
  /-- Comparisons. -/
  | equality
  /-- Sums and differences. -/
  | additive
  /-- Products and quotients. -/
  | multiplicative
deriving DecidableEq

/-- The operators of a level. -/
def Level.operators : Level → List String
  | logical => ["AND", "OR"]
  | equality => ["<", "<=", ">", ">=", "==", "!="]
  | additive => ["+", "-"]
  | multiplicative => ["*", "/"]

namespace Grammar

variable {M : Type → Type} [Monad M] [MonadLiftT Rule M] [Rule.Repeats M]

/-- An operator, which is the token ahead, and the operand after it. -/
def operation (operand : M Expr) : M (String × Expr) := do
  let operator ← Rule.next
  let right ← operand
  pure (operator.literal, right)

/-- Applies operators with their right operands to an expression, one after the other. -/
def applyAll (first : Expr) (rest : List (String × Expr)) : Expr :=
  rest.foldl (fun left (operator, right) => .binary operator left right) first

/-- Operands with operators of one level between them. -/
def leftNested (operators : List String) (operand : M Expr) : M Expr := do
  let first ← operand
  let rest ← Rule.many (Pattern.oneOf operators).fits (operation operand)
  pure (applyAll first rest)

/-! ## Chains of members and calls -/

/-- What follows a point. -/
inductive Selection where
  /-- The name of a member. -/
  | member (name : String)
  /-- The name of a method and its arguments. -/
  | invoke (name : String) (arguments : List Expr)

/-- The expression that a selection forms with its receiver. -/
def Selection.of (receiver : Expr) : Selection → Expr
  | member name => .member receiver name
  | invoke name arguments => .invoke receiver name arguments

/-- What follows the name in a selection. -/
def selectionRest (nested : M Expr) (name : Token) : M Selection := do
  match ← Rule.introduced "(" (Rule.parenthesized nested) with
  | some arguments => pure (.invoke name.literal arguments)
  | none => pure (.member name.literal)

/-- A point and what follows it. -/
def selection (nested : M Expr) : M Selection := do
  Rule.skip
  let name ← Rule.expect (.kind .identifier) .missingIdentifier
  selectionRest nested name

/-! ## Primary expressions -/

/-- What a token opens where an expression is due. -/
inductive Opening where
  /-- The token is the whole expression. -/
  | literal (value : Literal)
  /-- The token should be a literal, but its text denotes no value. -/
  | malformed
  /-- A group. -/
  | group
  /-- A variable or a call. -/
  | name
  /-- No expression. -/
  | nothing

/-- The value that a literal token denotes. -/
def literalValue? (token : Token) : Option Literal :=
  match token.kind with
  | .integer => (Numeral.ofToken? token.literal).map .integer
  | .decimal => (Decimal.ofToken? token.literal).map .decimal
  | .string => (Quoted.decode '"' token.literal).map .string
  | .character =>
    match (Quoted.decode '\'' token.literal).map String.toList with
    | some [c] => some (.character c)
    | _ => none
  | _ => none

/-- What a token opens.  The three words for constants come first, then the literals, and a
parenthesis opens a group whatever else the token was taken for. -/
def Opening.ofToken (token : Token) : Opening :=
  if token.literal = "NIL" then .literal .nil
  else if token.literal = "TRUE" then .literal (.bool true)
  else if token.literal = "FALSE" then .literal (.bool false)
  else
    match token.kind with
    | .integer | .decimal | .character | .string =>
      match literalValue? token with
      | some value => .literal value
      | none => .malformed
    | .identifier => if token.literal = "(" then .group else .name
    | .operator => if token.literal = "(" then .group else .nothing

/-- What follows the opening parenthesis of a group. -/
def groupRest (nested : M Expr) : M Expr := do
  let inner ← nested
  Rule.closingParen
  pure (.group inner)

/-- What follows the name of a variable or a function. -/
def nameRest (nested : M Expr) (name : String) : M Expr := do
  match ← Rule.introduced "(" (Rule.parenthesized nested) with
  | some arguments => pure (.call name arguments)
  | none => pure (.var name)

/-- A primary expression. -/
def primary (nested : M Expr) : M Expr := do
  match ← Rule.peek with
  | none => Rule.fail .invalidPrimaryExpression
  | some token =>
    match Opening.ofToken token with
    | .literal value =>
      Rule.skip
      pure (.literal value)
    | .malformed =>
      Rule.skip
      Rule.failAt .malformedLiteral token.offset
    | .group =>
      Rule.skip
      groupRest nested
    | .name =>
      Rule.skip
      nameRest nested token.literal
    | .nothing => Rule.fail .invalidPrimaryExpression

/-! ## The ladder of levels -/

/-- A primary expression with selections after it. -/
def secondary (nested : M Expr) : M Expr := do
  let receiver ← primary nested
  let selections ← Rule.manyFrom "." (selection nested)
  pure (selections.foldl Selection.of receiver)

/-- Products and quotients. -/
def multiplicative (nested : M Expr) : M Expr :=
  leftNested Level.multiplicative.operators (secondary nested)

/-- Sums and differences. -/
def additive (nested : M Expr) : M Expr :=
  leftNested Level.additive.operators (multiplicative nested)

/-- Comparisons. -/
def equality (nested : M Expr) : M Expr :=
  leftNested Level.equality.operators (additive nested)

/-- Conjunctions and disjunctions. -/
def logical (nested : M Expr) : M Expr :=
  leftNested Level.logical.operators (equality nested)

/-- An expression that nests at most as deeply as the limit says. -/
def expression : Nat → Rule Expr
  | 0, input => Rule.fail .recursionLimit input
  | limit + 1, input => logical (expression limit) input

end Grammar

end LetDef
