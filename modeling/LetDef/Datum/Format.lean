import LetDef.Datum.Debug
import LetDef.Datum.Ron

/-!
# Choosing a layout

A tree is written down in one of two layouts and ends with a line break.  Writing may be refused:
by the object notation if the tree nests too deeply, and by the place it is written to if that has
no room for the whole text.
-/

namespace LetDef

/-- A layout for trees. -/
inductive Format where
  /-- The debug layout. -/
  | debug
  /-- The object notation. -/
  | ron
deriving DecidableEq

/-- Why a tree is not written down. -/
inductive Refusal where
  /-- The tree nests too deeply. -/
  | tooDeep
  /-- The text is longer than the room for it. -/
  | noRoom
deriving DecidableEq

/-- What a reader is told about a refusal. -/
def Refusal.message : Refusal → String
  | tooDeep => "Exceeded recursion limit, try increasing the limit and using `serde_stacker` to " ++
      "protect against a stack overflow"
  | noRoom => "failed to write whole buffer"

namespace Format

/-- The text of a tree, with a line break at its end. -/
def write (format : Format) (d : Datum) : Except Refusal String :=
  match format with
  | debug => .ok (d.debug ++ "\n")
  | ron =>
    match d.ron? with
    | some text => .ok (text ++ "\n")
    | none => .error .tooDeep

/-- Succeeds if the text of a tree fits into so many bytes of UTF-8. -/
def fitsInto (format : Format) (room : Nat) (d : Datum) : Except Refusal Unit := do
  let text ← format.write d
  if text.utf8ByteSize ≤ room then .ok () else .error .noRoom

end Format

end LetDef
