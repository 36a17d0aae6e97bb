import LetDef.Text.Ranges

/-!
# Characters that leave no trace

A character with the property Default_Ignorable_Code_Point is displayed as nothing at all wherever
it is not supported: joiners, variation selectors, tags, and the fillers that stand for a missing
letter of a Hangul syllable.  The fillers count as letters, so the general category does not tell
that they cannot be seen.  The table holds the characters to which Unicode 17 gives the property.
-/

namespace LetDef.Text

/-- The code points of characters that are ignored in display. -/
def defaultIgnorable : Ranges := [
  (0xAD, 0xAD), (0x34F, 0x34F), (0x61C, 0x61C), (0x115F, 0x1160), (0x17B4, 0x17B5),
  (0x180B, 0x180F), (0x200B, 0x200F), (0x202A, 0x202E), (0x2060, 0x206F), (0x3164, 0x3164),
  (0xFE00, 0xFE0F), (0xFEFF, 0xFEFF), (0xFFA0, 0xFFA0), (0xFFF0, 0xFFF8), (0x1BCA0, 0x1BCA3),
  (0x1D173, 0x1D17A), (0xE0000, 0xE0FFF) ]

/-- Whether a character is ignored in display. -/
def isDefaultIgnorable (c : Char) : Bool :=
  defaultIgnorable.contains c

end LetDef.Text
