import LetDef.Grammar.Construct
import LetDef.Token.Tokenizer

/-!
# From text to programs

A text is read in two steps: it is cut into tokens, and the tokens are read as a program.  A fault
of the first step wins over one of the second, which is then not begun.
-/

namespace LetDef.Program

/-- The program that a whole token list spells, nesting at most as deeply as the limit says. -/
def ofTokens (limit : Nat) (tokens : List Token) : Except Fault Program :=
  match Grammar.program (Grammar.innerAt limit) (TokenInput.ofList tokens) with
  | .ok program _ => .ok program
  | .error fault _ => .error fault

/-- The program that a text spells, nesting at most as deeply as the limit says. -/
def ofText (limit : Nat) (text : String) : Except Fault Program := do
  let tokens ← tokenize text
  ofTokens limit tokens

end LetDef.Program
