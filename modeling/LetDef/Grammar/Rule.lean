import LetDef.Fault
import LetDef.Token.Input

/-!
# Rules

A rule reads tokens from a `TokenInput` and answers with a value or with a fault.  Either way it
leaves an input behind, whose tokens ahead are those that it has not read: also a rule that fails
tells how far it came.  A fault is placed at the token ahead, or at the end of the list.

What is put together from rules is spelled without saying what rules are: in any monad in which the
rules for single tokens can be used and in which there is a repetition (`Repeats`).  A rule may so
keep more in its state than the input, as long as it reads tokens from there.

`Rule.repeatWhile` repeats a rule as long as the token ahead asks for it.  It needs no bound on the
number of rounds, because a round that reads nothing ends the repetition; the rules of the grammar
read at least one token in each round.
-/

namespace LetDef

/-- What reads tokens and answers with a value or with a fault. -/
abbrev Rule (α : Type) : Type := EStateM Fault TokenInput α

namespace Rule

/-! ## Single tokens -/

/-- Fails at the token ahead. -/
def fail {α : Type} (cause : Cause) : Rule α := fun input =>
  .error ⟨cause, input.nextOffset⟩ input

/-- Fails with a fault at a given place. -/
def failAt {α : Type} (cause : Cause) (offset : Nat) : Rule α := fun input =>
  .error ⟨cause, offset⟩ input

/-- The token ahead, which stays there. -/
def peek : Rule (Option Token) := fun input =>
  .ok input.ahead.head? input

/-- Takes the token ahead away. -/
def skip : Rule Unit := fun input =>
  .ok () input.advance

/-- Reads the token ahead, and fails if there is none. -/
def next : Rule Token := fun input =>
  match input.ahead with
  | token :: rest => .ok token { input with ahead := rest }
  | [] => fail .endOfInput input

/-- Reads a token that fits the pattern, if one is ahead. -/
def optional (pattern : Pattern) : Rule (Option Token) := fun input =>
  match input.ahead with
  | token :: rest =>
    if pattern.fits token then .ok (some token) { input with ahead := rest } else .ok none input
  | [] => .ok none input

/-- Reads a token with the literal, if one is ahead; the answer tells whether it did. -/
def found (text : String) : Rule Bool := do
  let token ← optional (.literal text)
  pure token.isSome

/-- Whether a token with the literal is ahead. -/
def sees (text : String) : Rule Bool := fun input =>
  .ok (input.peek [.literal text]) input

/-- Reads a token that fits the pattern, and fails if none is ahead. -/
def expect (pattern : Pattern) (cause : Cause) : Rule Token := do
  match ← optional pattern with
  | some token => pure token
  | none => fail cause

/-- Reads a token with the literal, and fails by naming the literal if none is ahead. -/
def word (text : String) : Rule Unit := do
  let _ ← expect (.literal text) (.expected ("`" ++ text ++ "`"))

/-- Reads an identifier. -/
def identifier : Rule String := do
  let token ← expect (.kind .identifier) (.expected "an identifier")
  pure token.literal

/-- Reads the semicolon that ends a statement or a field. -/
def semicolon : Rule Unit := do
  let _ ← expect (.literal ";") .missingSemicolon

/-- Reads the closing parenthesis of a list or a group. -/
def closingParen : Rule Unit := do
  let _ ← expect (.literal ")") .missingClosingParen

/-! ## Repetition -/

/-- Repeats a rule as long as the token ahead is of the given sort; the state holds an input. -/
def repeatWhile {ε σ α : Type} (input : σ → TokenInput) (continues : Token → Bool)
    (item : EStateM ε σ α) : EStateM ε σ (List α) := fun s =>
  if (input s).ahead.head?.any continues then
    match item s with
    | .error e t => .error e t
    | .ok a t =>
      if (input t).ahead.length < (input s).ahead.length then
        match repeatWhile input continues item t with
        | .error e u => .error e u
        | .ok as u => .ok (a :: as) u
      else .ok [a] t
  else .ok [] s
termination_by s => (input s).ahead.length

/-- Where there is a repetition. -/
class Repeats (M : Type → Type) where
  /-- Repeats a rule as long as the token ahead is of the given sort. -/
  many {α : Type} (continues : Token → Bool) (item : M α) : M (List α)

export Repeats (many)

instance : Repeats Rule where
  many := repeatWhile fun input => input

/-- Among rules, a rule is used as it is. -/
@[simp] theorem liftM_rule {α : Type} (rule : Rule α) : (liftM rule : Rule α) = rule := rfl

variable {M : Type → Type} [Monad M] [MonadLiftT Rule M] [Repeats M] {α : Type}

/-- Repeats a rule as long as a token with the literal is ahead. -/
def manyFrom (text : String) (item : M α) : M (List α) :=
  many (Pattern.literal text).fits item

/-- An item after a comma; a closing parenthesis in place of the item is a fault of its own. -/
def furtherRest (item : M α) : M α := do
  if ← sees ")" then fail .trailingComma else item

/-- A comma and an item. -/
def further (item : M α) : M α := do
  skip
  furtherRest item

/-- One item or more, separated by commas. -/
def commaSeparated (item : M α) : M (List α) := do
  let first ← item
  let rest ← manyFrom "," (further item)
  pure (first :: rest)

/-- One item or more up to a closing parenthesis, which is read too. -/
def itemsRest (item : M α) : M (List α) := do
  let items ← commaSeparated item
  closingParen
  pure items

/-- Items separated by commas up to a closing parenthesis, which is read too.  The opening
parenthesis has been read before. -/
def parenthesized (item : M α) : M (List α) := do
  if ← found ")" then pure [] else itemsRest item

/-- Reads what follows a token with the literal, if such a token is ahead. -/
def introduced (text : String) (item : M α) : M (Option α) := do
  if ← found text then
    let a ← item
    pure (some a)
  else pure none

/-- Reads an item, unless a token with the literal is ahead. -/
def unlessSeen (text : String) (item : M α) : M (Option α) := do
  if ← sees text then pure none
  else
    let a ← item
    pure (some a)

end Rule

end LetDef
