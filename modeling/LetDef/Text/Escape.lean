import LetDef.Text.DefaultIgnorable
import LetDef.Text.ExtendingMark
import LetDef.Text.Printable

/-!
# Escaped characters

Where a value is written down between quotes, characters that would end the quotation, that cannot
be seen or that would join the character before them are written as escapes.  Which quotes need a
backslash depends on the quotation, so the set of them is a parameter.  A character cannot be seen
if it is not printable or if it is ignored in display; it joins the one before it if it is a mark
that extends it.
-/

namespace LetDef.Text

/-- The code point of a character in hexadecimal digits, between braces. -/
def codePointEscape (c : Char) : List Char :=
  "\\u\x7b".toList ++ (Nat.toDigits 16 c.toNat ++ ['\x7d'])

/-- Whether a reader of the text could not make out the character by itself: it is not printable,
it is ignored in display, or it is a mark that extends the character before it. -/
def isObscure (c : Char) : Bool :=
  !isPrintable c || isDefaultIgnorable c || isExtendingMark c

/-- How a character is written where the given quotes need a backslash. -/
def escapeChar (quotes : List Char) (c : Char) : List Char :=
  if c = '\x00' then ['\\', '0']
  else if c = '\t' then ['\\', 't']
  else if c = '\r' then ['\\', 'r']
  else if c = '\n' then ['\\', 'n']
  else if c = '\\' ∨ c ∈ quotes then ['\\', c]
  else if isObscure c then codePointEscape c
  else [c]

/-- How a text is written where the given quotes need a backslash. -/
def escape (quotes : List Char) (cs : List Char) : List Char :=
  cs.flatMap (escapeChar quotes)

/-- A text between two copies of a quote. -/
def quoted (quote : Char) (inner : List Char) : List Char :=
  quote :: (inner ++ [quote])

end LetDef.Text
