import LetDef.Grammar.Expression

/-!
# Reading statements, methods and programs

The first word of a statement decides on its form; a statement that starts with none of the five
words is an expression or an assignment.  Blocks run up to a word that ends them, which stays ahead.

As with expressions, each form of statement takes the rules for what it contains as a parameter
(`Inner`) and is as general as these, and `block` ties the knot by recursion on the limit.  A block
costs one unit of the limit and so does every expression in it, so both are read with the same
smaller limit inside a block.
-/

namespace LetDef.Grammar

/-- The rules for what a statement contains. -/
structure Inner (M : Type → Type) where
  /-- Expressions. -/
  expression : M Expr
  /-- Blocks up to a token that fits the pattern. -/
  block : Pattern → M (List Stmt)

variable {M : Type → Type} [Monad M] [MonadLiftT Rule M] [Rule.Repeats M]

/-! ## Statements -/

/-- A name, possibly with a type after a colon and a value after an equals sign. -/
def binding (nested : M Expr) : M Binding := do
  let name ← Rule.identifier
  let typeName ← Rule.introduced ":" Rule.identifier
  let value ← Rule.introduced "=" nested
  pure ⟨name, typeName, value⟩

/-- A binding as it stands at the head of a program and among statements. -/
def letBinding (nested : M Expr) : M Binding := do
  Rule.word "LET"
  let introduced ← binding nested
  Rule.semicolon
  pure introduced

/-- A declaration. -/
def declaration (inner : Inner M) : M Stmt := do
  let introduced ← letBinding inner.expression
  pure (.declaration introduced)

/-- A choice between two blocks, of which the second may be left out. -/
def conditional (inner : Inner M) : M Stmt := do
  Rule.word "IF"
  let condition ← inner.expression
  Rule.word "DO"
  let thenBlock ← inner.block (.oneOf ["ELSE", "END"])
  let elseBlock ← Rule.introduced "ELSE" (inner.block (.literal "END"))
  Rule.word "END"
  pure (.conditional condition thenBlock (elseBlock.getD []))

/-- A block between the words around it. -/
def enclosed (inner : Inner M) : M (List Stmt) := do
  Rule.word "DO"
  let body ← inner.block (.literal "END")
  Rule.word "END"
  pure body

/-- A block that is run for each element of a value. -/
def forEach (inner : Inner M) : M Stmt := do
  Rule.word "FOR"
  let name ← Rule.identifier
  Rule.word "IN"
  let value ← inner.expression
  let body ← enclosed inner
  pure (.forEach name value body)

/-- A block that is run as long as a condition holds. -/
def whileLoop (inner : Inner M) : M Stmt := do
  Rule.word "WHILE"
  let condition ← inner.expression
  let body ← enclosed inner
  pure (.whileLoop condition body)

/-- The end of a method. -/
def result (inner : Inner M) : M Stmt := do
  Rule.word "RETURN"
  let value ← Rule.unlessSeen ";" inner.expression
  Rule.semicolon
  pure (.result value)

/-- An expression or an assignment. -/
def evaluation (inner : Inner M) : M Stmt := do
  let receiver ← inner.expression
  match ← Rule.introduced "=" inner.expression with
  | some value =>
    Rule.semicolon
    pure (.assignment receiver value)
  | none =>
    Rule.semicolon
    pure (.expression receiver)

/-- The forms of statements. -/
inductive Form where
  /-- A declaration. -/
  | declaration
  /-- A choice between two blocks. -/
  | conditional
  /-- A block that is run for each element of a value. -/
  | forEach
  /-- A block that is run as long as a condition holds. -/
  | whileLoop
  /-- The end of a method. -/
  | result
  /-- An expression or an assignment. -/
  | evaluation

/-- The form of the statements that start with a word. -/
def Form.ofWord (word : String) : Form :=
  if word = "LET" then declaration
  else if word = "IF" then conditional
  else if word = "FOR" then forEach
  else if word = "WHILE" then whileLoop
  else if word = "RETURN" then result
  else evaluation

/-- The form of the statements that start with a token; where no token is left, only an expression
could be missing. -/
def Form.ofToken? : Option Token → Form
  | some token => ofWord token.literal
  | none => evaluation

/-- The rule for the statements of a form. -/
def formRule (inner : Inner M) : Form → M Stmt
  | .declaration => declaration inner
  | .conditional => conditional inner
  | .forEach => forEach inner
  | .whileLoop => whileLoop inner
  | .result => result inner
  | .evaluation => evaluation inner

/-- A statement of the form that its first token decides on. -/
def statement (inner : Inner M) : M Stmt := do
  let first ← Rule.peek
  formRule inner (Form.ofToken? first)

/-- Statements up to a token that fits the pattern, or up to the end. -/
def statements (inner : Inner M) (terminator : Pattern) : M (List Stmt) :=
  Rule.many (fun token => !terminator.fits token) (statement inner)

/-- A block that nests at most as deeply as the limit says. -/
def block : Nat → Pattern → Rule (List Stmt)
  | 0, _, input => Rule.fail .recursionLimit input
  | limit + 1, terminator, input =>
    statements ⟨expression limit, block limit⟩ terminator input

/-- The rules for what a statement contains, at a limit. -/
def innerAt (limit : Nat) : Inner Rule := ⟨expression limit, block limit⟩

/-! ## Methods and programs -/

/-- A method. -/
def method (inner : Inner M) : M Method := do
  Rule.word "DEF"
  let name ← Rule.identifier
  Rule.word "("
  let parameters ← Rule.parenthesized Rule.identifier
  let body ← enclosed inner
  pure ⟨name, parameters, body⟩

/-- Succeeds if no token is left. -/
def endOfProgram : Rule Unit := do
  match ← Rule.peek with
  | none => pure ()
  | some _ => Rule.fail (.expected "`DEF`")

/-- A program: fields, then methods, then nothing more. -/
def program (inner : Inner M) : M Program := do
  let fields ← Rule.manyFrom "LET" (letBinding inner.expression)
  let methods ← Rule.manyFrom "DEF" (method inner)
  endOfProgram
  pure ⟨fields, methods⟩

end LetDef.Grammar
