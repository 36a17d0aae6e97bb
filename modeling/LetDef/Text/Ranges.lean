/-!
# Sets of characters as ranges

A set of characters is given as a list of ranges of code points, each with its first and its last
member.
-/

namespace LetDef.Text

/-- A set of characters: the first and the last code point of each of its ranges. -/
abbrev Ranges := List (Nat × Nat)

/-- Whether a character is a member of one of the ranges. -/
def Ranges.contains (ranges : Ranges) (c : Char) : Bool :=
  ranges.any fun (first, last) => first ≤ c.toNat && c.toNat ≤ last

end LetDef.Text
