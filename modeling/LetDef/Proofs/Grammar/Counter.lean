import LetDef.Grammar.Construct

/-!
# The limit as a counter

The rules of the grammar take the limit as an argument and hand a smaller one on to what they
contain, so no rule can leave a wrong limit behind.  A parse need not work in that way.  It may as
well keep a single counter in its state: an expression and a block take one unit from it when they
are entered and give it back when they are left, however they are left.  In that form the limit is
shared by all rules to come, and a unit that is not given back once is missing for good.

This module ties the knot of the grammar in the second form.  A rule is now `Counted`: it works on a
whole `Parse` and may change the limit as well as the input.  The rules of the grammar are spelled
for these as well, so all that is left to say is what an expression and a block are: what `guarded`
runs.  The counter has a largest value, and giving back a unit beyond it is an end of its own
(`Halt.overflow`).
-/

namespace LetDef

/-- The largest value of the counter. -/
def maxCount : Nat := 0xffffffffffffffff

/-- Why a rule ends without a value. -/
inductive Halt where
  /-- The input is refused. -/
  | fault (fault : Fault)
  /-- A unit has been given back that the counter has no room for. -/
  | overflow
  /-- Rules have entered each other more often than they were allowed to. -/
  | endless
deriving DecidableEq

/-- What reads tokens and may change the limit for the rules to come. -/
abbrev Counted (α : Type) : Type := EStateM Halt Parse α

namespace Counted

/-- A rule that contains neither expressions nor blocks leaves the limit alone. -/
def lift {α : Type} (rule : Rule α) : Counted α := fun p =>
  match rule p.input with
  | .ok a input => .ok a { p with input }
  | .error fault input => .error (.fault fault) { p with input }

instance : MonadLift Rule Counted where
  monadLift := lift

/-! ## The guard -/

/-- Takes one unit from the counter, and fails if there is none. -/
def enter : Counted Unit := fun p =>
  match p.limit with
  | 0 => lift (Rule.fail .recursionLimit) p
  | left + 1 => .ok () { p with limit := left }

/-- Gives one unit back. -/
def leave : Counted Unit := fun p =>
  if p.limit < maxCount then .ok () { p with limit := p.limit + 1 } else .error .overflow p

/-- Takes a unit while the body runs, and gives it back whether the body succeeds or not. -/
def guarded {α : Type} (body : Counted α) : Counted α := do
  enter
  tryFinally body leave

/-! ## Expressions and blocks -/

instance : Rule.Repeats Counted where
  many := Rule.repeatWhile Parse.input

/-- An expression in which expressions enter each other fewer than `depth` times. -/
def expressionWithin : Nat → Counted Expr
  | 0 => throw .endless
  | depth + 1 => guarded (Grammar.logical (expressionWithin depth))

/-- An expression.  The counter bounds how often expressions enter each other, and `expression_eq`
says that the expressions in it are read by this very rule. -/
def expression : Counted Expr := fun p => expressionWithin (p.limit + 1) p

/-- A block in which blocks enter each other fewer than `depth` times. -/
def blockWithin : Nat → Pattern → Counted (List Stmt)
  | 0, _ => throw .endless
  | depth + 1, terminator => guarded (Grammar.statements ⟨expression, blockWithin depth⟩ terminator)

/-- A block; `block_eq` says that the blocks in it are read by this very rule. -/
def block (terminator : Pattern) : Counted (List Stmt) := fun p =>
  blockWithin (p.limit + 1) terminator p

/-- The rules for what a statement contains. -/
def inner : Grammar.Inner Counted := ⟨expression, block⟩

/-- The rule of a construct. -/
def rule (construct : Construct) : Counted Node := construct.ruleOf inner

end Counted

end LetDef
