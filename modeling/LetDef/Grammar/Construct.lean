import LetDef.Grammar.Statement

/-!
# Constructs

A construct is a part of the language that can be asked for by itself: a whole program, a statement
or any of its forms, an expression or any of its levels.  `Construct.rule` gives its rule at a
limit, and `Parse` is a parse under way: an input and the limit for the rules to come.  A limit is
the same before and after a rule, whether the rule succeeds or not; only `Parse.withLimit` changes
it.
-/

namespace LetDef

/-- What a construct stands for once it has been read. -/
inductive Node where
  /-- A whole program. -/
  | program (value : Program)
  /-- A field. -/
  | field (value : Binding)
  /-- A method. -/
  | method (value : Method)
  /-- A statement. -/
  | statement (value : Stmt)
  /-- An expression. -/
  | expression (value : Expr)

/-- A part of the language that can be asked for by itself. -/
inductive Construct where
  /-- A whole program. -/
  | program
  /-- A field. -/
  | field
  /-- A method. -/
  | method
  /-- A statement of any form. -/
  | statement
  /-- A declaration among statements. -/
  | declaration
  /-- A choice between two blocks. -/
  | conditional
  /-- A block that is run for each element of a value. -/
  | forEach
  /-- A block that is run as long as a condition holds. -/
  | whileLoop
  /-- The end of a method. -/
  | result
  /-- An expression, which costs one unit of the limit. -/
  | expression
  /-- An expression of the loosest level, without that cost. -/
  | logical
  /-- An expression whose operators are at least as tight as comparisons. -/
  | equality
  /-- An expression whose operators are at least as tight as sums. -/
  | additive
  /-- An expression whose operators are at least as tight as products. -/
  | multiplicative
  /-- An expression without operators. -/
  | secondary
  /-- An expression without operators and selections. -/
  | primary
deriving DecidableEq

/-- The limit that holds unless another one is set. -/
def defaultLimit : Nat := 64

namespace Construct

/-- The rule of a construct, from the rules for what statements contain. -/
def ruleOf {M : Type → Type} [Monad M] [MonadLiftT Rule M] [Rule.Repeats M]
    (inner : Grammar.Inner M) : Construct → M Node
  | .program => .program <$> Grammar.program inner
  | .field => .field <$> Grammar.letBinding inner.expression
  | .method => .method <$> Grammar.method inner
  | .statement => .statement <$> Grammar.statement inner
  | .declaration => .statement <$> Grammar.declaration inner
  | .conditional => .statement <$> Grammar.conditional inner
  | .forEach => .statement <$> Grammar.forEach inner
  | .whileLoop => .statement <$> Grammar.whileLoop inner
  | .result => .statement <$> Grammar.result inner
  | .expression => .expression <$> inner.expression
  | .logical => .expression <$> Grammar.logical inner.expression
  | .equality => .expression <$> Grammar.equality inner.expression
  | .additive => .expression <$> Grammar.additive inner.expression
  | .multiplicative => .expression <$> Grammar.multiplicative inner.expression
  | .secondary => .expression <$> Grammar.secondary inner.expression
  | .primary => .expression <$> Grammar.primary inner.expression

/-- The rule of a construct, nesting at most as deeply as the limit says. -/
def rule (construct : Construct) (limit : Nat) : Rule Node :=
  construct.ruleOf (Grammar.innerAt limit)

end Construct

/-! ## Parses under way -/

/-- A token list that is being read, and how deeply the rules to come may nest. -/
structure Parse where
  /-- What is left of the token list. -/
  input : TokenInput
  /-- How deeply the rules to come may nest. -/
  limit : Nat

namespace Parse

/-- The start of a parse of a whole token list. -/
def ofList (tokens : List Token) : Parse := ⟨TokenInput.ofList tokens, defaultLimit⟩

/-- The same parse with another limit from here on. -/
def withLimit (p : Parse) (limit : Nat) : Parse := { p with limit }

/-- Reads a construct. -/
def read (p : Parse) (construct : Construct) : Except Fault Node × Parse :=
  match construct.rule p.limit p.input with
  | .ok node input => (.ok node, { p with input })
  | .error fault input => (.error fault, { p with input })

/-- Whether the tokens ahead fit the patterns, one token each. -/
def peek (p : Parse) (patterns : List Pattern) : Bool := p.input.peek patterns

/-- Takes the tokens ahead if they fit the patterns. -/
def tryMatch (p : Parse) (patterns : List Pattern) : Bool × Parse :=
  let (matched, input) := p.input.tryMatch patterns
  (matched, { p with input })

end Parse

end LetDef
