import LetDef.Fault
import LetDef.Literal.Quoted
import LetDef.Token.Basic

/-!
# Lexemes

What stands at the front of a text?  Each recogniser of this module answers that question with a
`Reading`: how many characters it reads, and what it takes them for, or why it refuses them.  A
recogniser sees nothing but the characters ahead, so where a lexeme stands and what came before it
never matter.  The offset of a fault is the index just past the characters read.

`Lexeme.token` chooses one of the others by the first two characters.  Each of the others may also
be asked directly; it then treats its opening delimiter, if it has one, as optional.

Statement: a token that is recognised in a text that has not ended reads at least one character
(`Lexeme.token_length_pos`).
-/

namespace LetDef

/-! ## Character classes -/

/-- Blanks separate tokens and belong to none: space, backspace, line feed, carriage return, tab. -/
def isBlank (c : Char) : Bool :=
  c = ' ' || c = '\x08' || c = '\n' || c = '\r' || c = '\t'

/-- A character that ends a line. -/
def isLineEnd (c : Char) : Bool :=
  c = '\n' || c = '\r'

/-- The sign of a number. -/
def isSign (c : Char) : Bool :=
  c = '+' || c = '-'

/-- A character that can start an identifier: an ASCII letter or an underscore. -/
def isNameStart (c : Char) : Bool :=
  c.isAlpha || c = '_'

/-- A character that can continue an identifier: also an ASCII digit or a hyphen. -/
def isNamePart (c : Char) : Bool :=
  c.isAlphanum || c = '_' || c = '-'

/-- A character that forms one operator with an equals sign after it. -/
def isComparison (c : Char) : Bool :=
  c = '<' || c = '>' || c = '!' || c = '='

theorem isNamePart_of_isNameStart {c : Char} (h : isNameStart c) : isNamePart c := by
  grind [isNameStart, isNamePart, Char.isAlphanum]

/-! ## Readings -/

/-- What a recogniser says about the characters ahead. -/
structure Reading (α : Type) where
  /-- How many characters it reads. -/
  length : Nat
  /-- What it takes them for, or why it refuses them. -/
  verdict : Except Cause α

/-- The same verdict after `n` further characters, which come first. -/
def Reading.after (n : Nat) {α : Type} (r : Reading α) : Reading α :=
  { r with length := n + r.length }

@[simp] theorem Reading.length_after (n : Nat) {α : Type} (r : Reading α) :
    (r.after n).length = n + r.length := rfl

@[simp] theorem Reading.verdict_after (n : Nat) {α : Type} (r : Reading α) :
    (r.after n).verdict = r.verdict := rfl

namespace Lexeme

/-- One if the characters start with a member of the class, else zero. -/
def optional (p : Char → Bool) : List Char → Nat
  | c :: _ => if p c then 1 else 0
  | [] => 0

/-! ## Names, numbers and operators -/

/-- An identifier: as many name characters as there are. -/
def identifier (cs : List Char) : Reading Token.Kind :=
  ⟨(cs.takeWhile isNamePart).length, .ok .identifier⟩

/-- The length of a point and the digits after it; without a digit there is no fraction. -/
def fraction : List Char → Nat
  | [] => 0
  | c :: rest =>
    if c = '.' then
      let digits := (rest.takeWhile Char.isDigit).length
      if digits = 0 then 0 else 1 + digits
    else 0

/-- A number: a sign or none, digits, and a fraction or none. -/
def number (cs : List Char) : Reading Token.Kind :=
  let sign := optional isSign cs
  let whole := sign + ((cs.drop sign).takeWhile Char.isDigit).length
  let part := fraction (cs.drop whole)
  ⟨whole + part, .ok (if part = 0 then .integer else .decimal)⟩

/-- An operator: a comparison that ends in an equals sign, else any single character. -/
def operator : List Char → Reading Token.Kind
  | [] => ⟨0, .ok .operator⟩
  | c :: rest => ⟨1 + (if isComparison c then optional (· = '=') rest else 0), .ok .operator⟩

/-! ## Quoted literals -/

/-- An escape.  If it is none, the backslash is read all the same, so that the fault points at the
character after it. -/
def escape : List Char → Reading Unit
  | '\\' :: letter :: _ =>
    if Quoted.isEscapeLetter letter then ⟨2, .ok ()⟩ else ⟨1, .error .invalidEscape⟩
  | _ :: _ => ⟨1, .error .invalidEscape⟩
  | [] => ⟨0, .error .invalidEscape⟩

/-- The closing quote of a character literal.  A character that stands in its place is read as
well, unless it ends the line. -/
def closingQuote : List Char → Reading Token.Kind
  | c :: _ =>
    if c = '\'' then ⟨1, .ok .character⟩
    else if isLineEnd c then ⟨0, .error .unterminatedCharacter⟩
    else ⟨1, .error .unterminatedCharacter⟩
  | [] => ⟨0, .error .unterminatedCharacter⟩

/-- One unit of a character literal and the closing quote after it. -/
def characterUnit : List Char → Reading Token.Kind
  | [] => ⟨0, .error .unterminatedCharacter⟩
  | c :: rest =>
    if c = '\\' then
      match rest with
      | [] => ⟨1, .error .invalidEscape⟩
      | letter :: rest =>
        if Quoted.isEscapeLetter letter then (closingQuote rest).after 2
        else ⟨1, .error .invalidEscape⟩
    else if isLineEnd c then ⟨0, .error .unterminatedCharacter⟩
    else (closingQuote rest).after 1

/-- What follows the opening quote of a character literal.  A second quote is refused at once, with
a cause of its own if a third one follows. -/
def characterBody : List Char → Reading Token.Kind
  | '\'' :: rest =>
    ⟨1 + optional (· = '\'') rest,
      .error (if optional (· = '\'') rest = 1 then .illegalSingleQuote else .missingCharacter)⟩
  | cs => characterUnit cs

/-- A character literal. -/
def character (cs : List Char) : Reading Token.Kind :=
  let opening := optional (· = '\'') cs
  (characterBody (cs.drop opening)).after opening

/-- The units of a string literal and the closing quote after them. -/
def stringUnits : List Char → Reading Token.Kind
  | [] => ⟨0, .error .unterminatedString⟩
  | c :: rest =>
    if c = '\\' then
      match rest with
      | [] => ⟨1, .error .invalidEscape⟩
      | letter :: rest =>
        if Quoted.isEscapeLetter letter then (stringUnits rest).after 2
        else ⟨1, .error .invalidEscape⟩
    else if c = '"' then ⟨1, .ok .string⟩
    else if isLineEnd c then ⟨0, .error .unterminatedString⟩
    else (stringUnits rest).after 1

/-- What follows the opening quote of a string literal.  Two more quotes are refused, so that an
empty string is never followed by a quote. -/
def stringBody : List Char → Reading Token.Kind
  | '"' :: '"' :: _ => ⟨2, .error .doubleQuoteInString⟩
  | cs => stringUnits cs

/-- A string literal. -/
def string (cs : List Char) : Reading Token.Kind :=
  let opening := optional (· = '"') cs
  (stringBody (cs.drop opening)).after opening

/-! ## Any token -/

/-- The recogniser that the first two characters call for. -/
def token : List Char → Reading Token.Kind
  | [] => ⟨0, .error .endOfInput⟩
  | c :: rest =>
    if isNameStart c then identifier (c :: rest)
    else if c.isDigit || (isSign c && optional Char.isDigit rest = 1) then number (c :: rest)
    else if c = '\'' then character (c :: rest)
    else if c = '"' then string (c :: rest)
    else operator (c :: rest)

theorem optional_le_one (p : Char → Bool) (cs : List Char) : optional p cs ≤ 1 := by
  unfold optional
  split <;> grind

theorem identifier_length_pos {c : Char} (rest : List Char) (h : isNameStart c) :
    0 < (identifier (c :: rest)).length := by
  have hpart : isNamePart c := isNamePart_of_isNameStart h
  simp only [identifier, List.takeWhile_cons_of_pos hpart, List.length_cons]
  omega

theorem number_length_pos {c : Char} (rest : List Char) (h : c.isDigit ∨ isSign c) :
    0 < (number (c :: rest)).length := by
  by_cases hs : isSign c
  · have hsign : optional isSign (c :: rest) = 1 := if_pos hs
    simp only [number, hsign]
    omega
  · have hd : c.isDigit := h.resolve_right hs
    have hsign : optional isSign (c :: rest) = 0 := if_neg hs
    have hwhole : ((c :: rest).takeWhile Char.isDigit).length =
        (rest.takeWhile Char.isDigit).length + 1 := by
      rw [List.takeWhile_cons_of_pos hd, List.length_cons]
    simp only [number, hsign, List.drop_zero, hwhole]
    omega

/-- Where the text has not ended, a token reads at least one character. -/
theorem token_length_pos {cs : List Char} (h : cs ≠ []) : 0 < (token cs).length := by
  obtain ⟨c, rest, rfl⟩ := List.exists_cons_of_ne_nil h
  simp only [token]
  split
  case isTrue hc => exact identifier_length_pos rest hc
  split
  case isTrue hc => exact number_length_pos rest (by grind)
  split
  case isTrue hc =>
    have hopening : optional (· = '\'') (c :: rest) = 1 := if_pos (decide_eq_true hc)
    simp only [character, hopening, Reading.length_after]
    omega
  split
  case isTrue hc =>
    have hopening : optional (· = '"') (c :: rest) = 1 := if_pos (decide_eq_true hc)
    simp only [string, hopening, Reading.length_after]
    omega
  case isFalse =>
    simp only [operator]
    omega

end Lexeme

end LetDef
