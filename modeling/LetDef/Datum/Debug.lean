import LetDef.Datum.Basic
import LetDef.Text.Escape

/-!
# The debug layout

The debug layout names every record and gives every part a line of its own, four columns further in
than what it is part of.  Each line that holds a part ends with a comma.  Only lists without items
and names by themselves stay on one line.  `Fault.debugLine` writes a fault on a single line, as it
stands inside a sentence.
-/

namespace LetDef.Datum

/-- By how many columns the parts of a tree stand further in. -/
def debugWidth : Nat := 4

/-- A decimal number as its digits and a power of ten. -/
def debugDecimal (d : Decimal) : List Char :=
  "BigDecimal(\"".toList ++ (Numeral.ofInt d.unscaled ++
    ('e' :: (Numeral.ofInt (-d.scale) ++ "\")".toList)))

/-- A name and, in parentheses on a line further in, what is tagged on. -/
def debugTagged (depth : Nat) (name : String) (inner : List Char) : List Char :=
  name.toList ++ ('(' :: (newLine debugWidth (depth + 1) ++
    (inner ++ (',' :: (newLine debugWidth depth ++ [')'])))))

mutual

/-- The debug layout of a tree at the given depth. -/
def debugAt (depth : Nat) : Datum → List Char
  | constant name => name.toList
  | bool value => if value then "true".toList else "false".toList
  | number value => Numeral.ofNat value
  | integer value => Numeral.ofInt value
  | decimal value => debugDecimal value
  | character value => Text.quoted '\'' (Text.escapeChar ['\''] value)
  | text value => Text.quoted '"' (Text.escape ['"'] value.toList)
  | absent => "None".toList
  | present inner => debugTagged depth "Some" (debugAt (depth + 1) inner)
  | tagged name inner => debugTagged depth name (debugAt (depth + 1) inner)
  | record name parts =>
    name.toList ++ (" \x7b".toList ++
      (debugParts (depth + 1) parts ++ (newLine debugWidth depth ++ ['\x7d'])))
  | list [] => "[]".toList
  | list (item :: items) =>
    '[' :: (debugItems (depth + 1) (item :: items) ++ (newLine debugWidth depth ++ [']']))

/-- The lines of labelled parts at the given depth. -/
def debugParts (depth : Nat) : List (String × Datum) → List Char
  | [] => []
  | (label, part) :: parts =>
    newLine debugWidth depth ++ (label.toList ++ (": ".toList ++
      (debugAt depth part ++ (',' :: debugParts depth parts))))

/-- The lines of the items of a list at the given depth. -/
def debugItems (depth : Nat) : List Datum → List Char
  | [] => []
  | item :: items =>
    newLine debugWidth depth ++ (debugAt depth item ++ (',' :: debugItems depth items))

end

/-- The debug layout of a tree. -/
def debug (d : Datum) : String := String.ofList (d.debugAt 0)

end LetDef.Datum

namespace LetDef

/-! ## Faults on a single line -/

/-- A cause on a single line. -/
def Cause.debugLine : Cause → List Char
  | .expected what =>
    "Expected(".toList ++ (Text.quoted '"' (Text.escape ['"'] what.toList) ++ [')'])
  | cause => cause.name.toList

/-- A fault on a single line. -/
def Fault.debugLine (fault : Fault) : String :=
  String.ofList ("ParseError \x7b kind: ".toList ++ (fault.cause.debugLine ++
    (", offset: ".toList ++ (Numeral.ofNat fault.offset ++ " \x7d".toList))))

end LetDef
