/-!
# Faults

A text or a token list is refused for exactly one reason, at exactly one place.  `Cause` lists the
reasons and `Fault` pairs one of them with the index of a character.  The first seven causes arise
while a text is cut into tokens, the others while tokens are read as a program; `Cause.isLexical`
tells the two groups apart, and `Fault.message` puts the group in front of the reason.
-/

namespace LetDef

/-- Why a text or a token list is refused. -/
inductive Cause where
  /-- Three single quotes in a row. -/
  | illegalSingleQuote
  /-- Two single quotes with nothing between them. -/
  | missingCharacter
  /-- A character literal with no closing quote after its one character. -/
  | unterminatedCharacter
  /-- Three double quotes in a row. -/
  | doubleQuoteInString
  /-- A string literal with no closing quote on its line. -/
  | unterminatedString
  /-- A backslash before a character that no escape knows. -/
  | invalidEscape
  /-- A token is asked for where the text has ended. -/
  | endOfInput
  /-- No semicolon where a statement or a field has to end. -/
  | missingSemicolon
  /-- No identifier after a point. -/
  | missingIdentifier
  /-- A comma directly before the parenthesis that closes a list. -/
  | trailingComma
  /-- No closing parenthesis where one is due. -/
  | missingClosingParen
  /-- A token that cannot start an expression. -/
  | invalidPrimaryExpression
  /-- Some other token was due, which `what` describes. -/
  | expected (what : String)
  /-- A literal token whose text denotes no value. -/
  | malformedLiteral
  /-- Expressions and blocks nest deeper than allowed. -/
  | recursionLimit
deriving DecidableEq

namespace Cause

/-- Whether the cause arises while a text is cut into tokens. -/
def isLexical : Cause → Bool
  | illegalSingleQuote | missingCharacter | unterminatedCharacter | doubleQuoteInString
  | unterminatedString | invalidEscape | endOfInput => true
  | _ => false

/-- The name under which the cause is written down. -/
def name : Cause → String
  | illegalSingleQuote => "IllegalSingleQuote"
  | missingCharacter => "MissingCharacter"
  | unterminatedCharacter => "UnterminatedCharacter"
  | doubleQuoteInString => "DoubleQuoteInString"
  | unterminatedString => "UnterminatedString"
  | invalidEscape => "InvalidEscape"
  | endOfInput => "EndOfInput"
  | missingSemicolon => "MissingSemicolon"
  | missingIdentifier => "MissingIdentifier"
  | trailingComma => "TrailingComma"
  | missingClosingParen => "MissingClosingParen"
  | invalidPrimaryExpression => "InvalidPrimaryExpression"
  | expected _ => "Expected"
  | malformedLiteral => "MalformedLiteral"
  | recursionLimit => "RecursionLimit"

/-- What a reader is told about the cause. -/
def message : Cause → String
  | illegalSingleQuote => "a single quote cannot be a character literal"
  | missingCharacter => "the character literal is empty"
  | unterminatedCharacter =>
      "the character literal is not terminated or spans multiple characters"
  | doubleQuoteInString => "the string starts with a run of double quotes"
  | unterminatedString => "the string is not terminated"
  | invalidEscape => "invalid escape sequence"
  | endOfInput => "unexpected end of input"
  | missingSemicolon => "missing semicolon after the statement"
  | missingIdentifier => "missing identifier after `.`"
  | trailingComma => "trailing comma in the argument list"
  | missingClosingParen => "missing closing parenthesis"
  | invalidPrimaryExpression => "invalid primary expression"
  | expected what => "expected " ++ what
  | malformedLiteral => "the literal token cannot be decoded"
  | recursionLimit => "a recursion limit has been reached while parsing"

end Cause

/-- A cause, and the index of the character at which it was noticed.  A fault noticed at the end of
a token list points just past the last token. -/
structure Fault where
  /-- Why the input is refused. -/
  cause : Cause
  /-- Index of a character, counted from the start of the text. -/
  offset : Nat
deriving DecidableEq

/-- What a reader is told about the fault; the place is not part of it. -/
def Fault.message (fault : Fault) : String :=
  (if fault.cause.isLexical then "lexical analysis failed: " else "syntax analysis failed: ")
    ++ fault.cause.message

end LetDef
