import LetDef.Literal.Numeral

/-!
# Decimal numbers

A decimal number is an integer and a scale, the number of its digits after the point.  The scale is
kept as written, so `1.5` and `1.50` are different values of the type although they denote the same
number.

`Decimal.ofToken?` reads a number: digits with a point anywhere among them, and an exponent after
them if there is one.  `Decimal.text` writes a number down.  Mostly that is the plain notation, with
as many digits after the point as the scale says; numbers with many zeros on either side are written
with an exponent instead.  Zero has a single form, whatever its scale.
-/

namespace LetDef

/-- The number `unscaled * 10 ^ (-scale)`. -/
structure Decimal where
  /-- The digits, read as an integer. -/
  unscaled : Int
  /-- How many of them stand after the point; negative if zeros are to be added instead. -/
  scale : Int
deriving DecidableEq

namespace Decimal

/-! ## Reading -/

/-- The scales that a number may have: those of a signed word of 64 bits. -/
def IsScale (scale : Int) : Prop := -0x8000000000000000 ≤ scale ∧ scale < 0x8000000000000000

instance (scale : Int) : Decidable (IsScale scale) :=
  inferInstanceAs (Decidable (_ ∧ _))

/-- The number that a mantissa and an exponent spell together.  The first point of the mantissa is
taken out, and the digits after it are counted. -/
def scaled? (mantissa : List Char) (exponent : Int) : Option Decimal :=
  let whole := mantissa.takeWhile (· ≠ '.')
  let fraction := (mantissa.dropWhile (· ≠ '.')).drop 1
  let scale := (fraction.countP (· ≠ '_') : Int) - exponent
  if IsScale scale then (Numeral.integer? (whole ++ fraction)).map (⟨·, scale⟩) else none

/-- The value of an exponent: digits without groups, with a sign in front or none. -/
def exponent? (cs : List Char) : Option Int :=
  if cs.contains '_' then none else Numeral.integer? cs

/-- Whether a character separates the exponent from the mantissa. -/
def isExponentMark (c : Char) : Bool := c = 'e' || c = 'E'

/-- The number that a mantissa spells, with an exponent after it or without. -/
def ofChars? (cs : List Char) : Option Decimal :=
  let mantissa := cs.takeWhile fun c => !isExponentMark c
  match cs.dropWhile fun c => !isExponentMark c with
  | [] => scaled? mantissa 0
  | _ :: power => do
    let exponent ← exponent? power
    scaled? mantissa exponent

/-- The value of a decimal token, which may have a plus sign in front of its number. -/
def ofToken? (literal : String) : Option Decimal :=
  ofChars? (Numeral.withoutPlus literal.toList)

/-! ## Writing -/

/-- So many zeros may follow the point directly before the notation changes. -/
def maxLeadingZeros : Int := 5

/-- So many zeros may be added to the digits before the notation changes. -/
def maxAddedZeros : Int := 15

/-- The digits with a point after the first one, if there are others, and an exponent that counts
from there. -/
def scientific (digits : List Char) (scale : Int) : List Char :=
  let fraction := digits.drop 1
  let exponent := (digits.length : Int) - 1 - scale
  digits.take 1 ++ ((if fraction.isEmpty then [] else '.' :: fraction) ++
    ('E' :: Numeral.ofInt exponent))

/-- The digits with a point `places` before their end.  Zeros are put in front so that one digit at
least stands before the point. -/
def pointed (digits : List Char) (places : Nat) : List Char :=
  let padded := List.replicate (places + 1 - digits.length) '0' ++ digits
  let whole := padded.length - places
  padded.take whole ++ ('.' :: padded.drop whole)

/-- The notation of a positive number with the given digits. -/
def magnitude (digits : List Char) (scale : Int) : List Char :=
  if scale - digits.length > maxLeadingZeros then scientific digits scale
  else if -scale > maxAddedZeros then digits ++ ("e+".toList ++ Numeral.ofInt (-scale))
  else if scale ≤ 0 then digits ++ List.replicate (-scale).toNat '0'
  else pointed digits scale.toNat

/-- The notation of a number. -/
def chars (d : Decimal) : List Char :=
  if d.unscaled = 0 then ['0']
  else
    (if d.unscaled < 0 then ['-'] else []) ++ magnitude (Numeral.ofNat d.unscaled.natAbs) d.scale

/-- The notation of a number. -/
def text (d : Decimal) : String := String.ofList d.chars

end Decimal

end LetDef
