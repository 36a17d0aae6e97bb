/-!
# Quoted text

Characters and strings are written between two copies of a delimiter.  Between them stand *units*:
either a single character other than a backslash, or a backslash and a letter from a short list,
which together denote one character.  `decodeUnits` reads a run of units and `decode` a whole
literal.  Neither looks at what a unit may be in a program text, where for instance a line may not
end inside a literal; that is the business of the recognisers in `LetDef.Token.Lexeme`.
-/

namespace LetDef.Quoted

/-- The character that a backslash and the given letter denote together. -/
def escapeValue? : Char → Option Char
  | 'b' => some '\x08'
  | 'n' => some '\n'
  | 'r' => some '\r'
  | 't' => some '\t'
  | '\\' => some '\\'
  | '\'' => some '\''
  | '"' => some '"'
  | _ => none

/-- Whether a backslash and the given letter denote a character together. -/
def isEscapeLetter (c : Char) : Bool :=
  (escapeValue? c).isSome

/-- The characters that a run of units denotes.  There is no answer if a backslash stands before
a character that is no escape letter, or at the end. -/
def decodeUnits : List Char → Option (List Char)
  | [] => some []
  | c :: rest =>
    if c = '\\' then
      match rest with
      | [] => none
      | letter :: rest => do
        let value ← escapeValue? letter
        let values ← decodeUnits rest
        pure (value :: values)
    else do
      let values ← decodeUnits rest
      pure (c :: values)

/-- What stands between two copies of `delimiter`, one at each end. -/
def between? (delimiter : Char) : List Char → Option (List Char)
  | [] => none
  | c :: rest =>
    if c = delimiter ∧ rest.getLast? = some delimiter then some rest.dropLast else none

/-- The text that a literal denotes: its units, decoded, without the delimiters around them. -/
def decode (delimiter : Char) (literal : String) : Option String := do
  let units ← between? delimiter literal.toList
  let values ← decodeUnits units
  pure (String.ofList values)

end LetDef.Quoted
