import LetDef.Datum.Basic
import LetDef.Text.Escape

/-!
# The object notation

The object notation leaves the names of records out and indents by two columns.  What is tagged on
follows its name directly, in parentheses.  An integer of any size is a pair of its sign and its
digits to the base `2 ^ 32`, the lowest first; a decimal number is quoted text.

A tree may be too deep for the notation: it is written with a budget of `maxNesting` units, and
`Datum.nesting` counts how many it needs.
-/

namespace LetDef

/-- The digits of a natural number to the base `2 ^ 32`, the lowest first.  Zero has none. -/
def limbs (n : Nat) : List Nat :=
  if h : n = 0 then [] else n % 0x100000000 :: limbs (n / 0x100000000)
termination_by n
decreasing_by omega

namespace Datum

/-! ## Depth -/

/-- How deeply a tree may nest. -/
def maxNesting : Nat := 128

mutual

/-- How deeply a tree nests.  A list, a pair and a record cost one unit, and so does each step to
what is in them, to what is tagged on and to what could be missing. -/
def nesting : Datum → Nat
  | present inner => 1 + nesting inner
  | tagged _ inner => 1 + nesting inner
  | record _ parts => 1 + nestingParts parts
  | list items => 1 + nestingItems items
  | integer value => if value = 0 then 3 else 4
  | _ => 0

/-- How deeply labelled parts nest. -/
def nestingParts : List (String × Datum) → Nat
  | [] => 0
  | (_, part) :: parts => max (1 + nesting part) (nestingParts parts)

/-- How deeply the items of a list nest. -/
def nestingItems : List Datum → Nat
  | [] => 0
  | item :: items => max (1 + nesting item) (nestingItems items)

end

/-! ## Layout -/

/-- By how many columns the parts of a tree stand further in. -/
def ronWidth : Nat := 2

/-- The lines of the items of a list at the given depth. -/
def ronLines (depth : Nat) (items : List (List Char)) : List Char :=
  items.flatMap fun item => newLine ronWidth depth ++ (item ++ [','])

/-- A list at the given depth. -/
def ronList (depth : Nat) (items : List (List Char)) : List Char :=
  if items.isEmpty then "[]".toList
  else '[' :: (ronLines (depth + 1) items ++ (newLine ronWidth depth ++ [']']))

/-- An integer as the pair of its sign and its digits. -/
def ronInteger (depth : Nat) (i : Int) : List Char :=
  '(' :: (Numeral.ofInt i.sign ++ (", ".toList ++
    (ronList depth ((limbs i.natAbs).map Numeral.ofNat) ++ [')'])))

mutual

/-- The object notation of a tree at the given depth. -/
def ronAt (depth : Nat) : Datum → List Char
  | constant name => name.toList
  | bool value => if value then "true".toList else "false".toList
  | number value => Numeral.ofNat value
  | integer value => ronInteger depth value
  | decimal value => Text.quoted '"' (Text.escape ['"', '\''] value.chars)
  | character value =>
    Text.quoted '\'' (if value = '\\' ∨ value = '\'' then ['\\', value] else [value])
  | text value => Text.quoted '"' (Text.escape ['"', '\''] value.toList)
  | absent => "None".toList
  | present inner => "Some(".toList ++ (ronAt depth inner ++ [')'])
  | tagged name inner => name.toList ++ ('(' :: (ronAt depth inner ++ [')']))
  | record _ parts => '(' :: (ronParts (depth + 1) parts ++ (newLine ronWidth depth ++ [')']))
  | list items => ronList depth (ronItems (depth + 1) items)

/-- The lines of labelled parts at the given depth. -/
def ronParts (depth : Nat) : List (String × Datum) → List Char
  | [] => []
  | (label, part) :: parts =>
    newLine ronWidth depth ++ (label.toList ++ (": ".toList ++
      (ronAt depth part ++ (',' :: ronParts depth parts))))

/-- The items of a list at the given depth. -/
def ronItems (depth : Nat) : List Datum → List (List Char)
  | [] => []
  | item :: items => ronAt depth item :: ronItems depth items

end

/-- The object notation of a tree, if it does not nest too deeply. -/
def ron? (d : Datum) : Option String :=
  if d.nesting ≤ maxNesting then some (String.ofList (d.ronAt 0)) else none

end Datum

end LetDef
