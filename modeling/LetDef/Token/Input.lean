import LetDef.Token.Basic

/-!
# Token lists as input

A `TokenInput` is what is left of a token list, together with the index just past the last token of
the whole list.  That index stays fixed while tokens are taken away: it is where a fault is placed
when no token is left to point at.

A `Pattern` describes one token.  Several patterns describe as many tokens in a row; `peek` compares
them with the tokens ahead, and `tryMatch` takes those tokens if, and only if, all of them fit.
-/

namespace LetDef

/-! ## Patterns -/

/-- A description of one token. -/
inductive Pattern where
  /-- Any token of the kind. -/
  | kind (kind : Token.Kind)
  /-- Any token with the literal, whatever its kind. -/
  | literal (text : String)
  /-- Any token with one of the literals. -/
  | oneOf (texts : List String)
deriving DecidableEq

/-- Whether a token fits a pattern. -/
def Pattern.fits : Pattern → Token → Bool
  | .kind k, token => token.kind = k
  | .literal text, token => token.literal = text
  | .oneOf texts, token => texts.contains token.literal

/-! ## Tokens ahead -/

/-- What is left of a token list. -/
structure TokenInput where
  /-- The tokens ahead. -/
  ahead : List Token
  /-- The index just past the last token of the whole list. -/
  endOffset : Nat
deriving DecidableEq

namespace TokenInput

/-- The whole of a token list; an empty one ends where it starts. -/
def ofList (tokens : List Token) : TokenInput :=
  ⟨tokens, (tokens.getLast?.map Token.endOffset).getD 0⟩

/-- Whether more than `n` tokens are ahead. -/
def has (input : TokenInput) (n : Nat) : Bool := n < input.ahead.length

/-- The token ahead after `n` others. -/
def get? (input : TokenInput) (n : Nat) : Option Token := input.ahead[n]?

/-- Takes `n` tokens away, or all of them if fewer are ahead. -/
def advanceBy (input : TokenInput) (n : Nat) : TokenInput :=
  { input with ahead := input.ahead.drop n }

/-- Takes one token away; at the end nothing changes. -/
def advance (input : TokenInput) : TokenInput := input.advanceBy 1

/-- Where the next token starts, or where the list ends if none is left. -/
def nextOffset (input : TokenInput) : Nat :=
  match input.ahead with
  | token :: _ => token.offset
  | [] => input.endOffset

/-- Whether the tokens ahead fit the patterns, one token each. -/
def peek (input : TokenInput) (patterns : List Pattern) : Bool :=
  go patterns input.ahead
where
  /-- Compares patterns and tokens in step. -/
  go : List Pattern → List Token → Bool
    | [], _ => true
    | _ :: _, [] => false
    | p :: ps, token :: tokens => p.fits token && go ps tokens

/-- Takes as many tokens as there are patterns if all of them fit, and nothing otherwise.  The
answer tells which. -/
def tryMatch (input : TokenInput) (patterns : List Pattern) : Bool × TokenInput :=
  if input.peek patterns then (true, input.advanceBy patterns.length) else (false, input)

/-- After some tokens of a list, the next offset is that of the token with their number, or the end
of the list. -/
theorem nextOffset_advanceBy (tokens : List Token) (n : Nat) :
    ((ofList tokens).advanceBy n).nextOffset =
      (tokens[n]?.map Token.offset).getD (ofList tokens).endOffset := by
  rw [← List.head?_drop]
  simp only [nextOffset, advanceBy, ofList]
  cases tokens.drop n <;> rfl

end TokenInput

end LetDef
