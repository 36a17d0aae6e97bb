import LetDef.Token.Basic

/-!
# Readers

A reader walks over the characters of a text.  It keeps the characters read since its last *mark*,
which are the candidate for the next token, and the characters still ahead.  `Reader.cut` makes a
token of the candidate, and `Reader.mark` drops it; both put the mark where the reader stands.

The index of the character ahead is not stored: it is the mark plus the number of characters held,
so it cannot disagree with them.
-/

namespace LetDef

/-- A place in a text, with the characters read since the last mark. -/
structure Reader where
  /-- The index at which the last mark was set. -/
  start : Nat
  /-- The characters read since, the latest first. -/
  held : List Char
  /-- The characters not read yet. -/
  ahead : List Char

namespace Reader

/-- A reader at the start of a text. -/
def ofList (cs : List Char) : Reader := ⟨0, [], cs⟩

/-- A reader at the start of a text. -/
def ofString (text : String) : Reader := ofList text.toList

/-- How many characters were read since the last mark. -/
def pending (r : Reader) : Nat := r.held.length

/-- The index of the character ahead. -/
def index (r : Reader) : Nat := r.start + r.pending

/-! ## Looking ahead -/

/-- Whether more than `n` characters are ahead. -/
def has (r : Reader) (n : Nat) : Bool := n < r.ahead.length

/-- The character ahead after `n` others. -/
def get? (r : Reader) (n : Nat) : Option Char := r.ahead[n]?

/-- The character ahead. -/
def peek? (r : Reader) : Option Char := r.get? 0

/-- Whether each of the classes, in order, has the character ahead at its place as a member. -/
def sees (r : Reader) (classes : List (Char → Bool)) : Bool :=
  go classes r.ahead
where
  /-- Compares classes and characters in step. -/
  go : List (Char → Bool) → List Char → Bool
    | [], _ => true
    | _ :: _, [] => false
    | p :: ps, c :: cs => p c && go ps cs

/-! ## Moving -/

/-- Reads `n` characters, or all of them if fewer are ahead. -/
def advanceBy (r : Reader) (n : Nat) : Reader :=
  { r with held := (r.ahead.take n).reverse ++ r.held, ahead := r.ahead.drop n }

/-- Reads one character; at the end of the text nothing changes. -/
def advance (r : Reader) : Reader := r.advanceBy 1

/-- Reads one character for each class if all of them match, and nothing otherwise.  The answer
tells which. -/
def accept (r : Reader) (classes : List (Char → Bool)) : Bool × Reader :=
  if r.sees classes then (true, r.advanceBy classes.length) else (false, r)

/-- Reads the given character if it is ahead. -/
def acceptChar (r : Reader) (c : Char) : Bool × Reader :=
  r.accept [(· = c)]

/-- Reads characters as long as they are members of the class, and counts them. -/
def acceptWhile (r : Reader) (p : Char → Bool) : Nat × Reader :=
  let count := (r.ahead.takeWhile p).length
  (count, r.advanceBy count)

/-! ## Marks and tokens -/

/-- Drops the characters held and sets the mark here. -/
def mark (r : Reader) : Reader := ⟨r.index, [], r.ahead⟩

/-- Makes a token of the characters held and sets the mark here. -/
def cut (r : Reader) (kind : Token.Kind) : Token × Reader :=
  (⟨kind, String.ofList r.held.reverse, r.start⟩, r.mark)

@[simp] theorem ahead_advanceBy (r : Reader) (n : Nat) :
    (r.advanceBy n).ahead = r.ahead.drop n := rfl

@[simp] theorem ahead_mark (r : Reader) : r.mark.ahead = r.ahead := rfl

@[simp] theorem start_advanceBy (r : Reader) (n : Nat) : (r.advanceBy n).start = r.start := rfl

@[simp] theorem index_mark (r : Reader) : r.mark.index = r.index := rfl

@[simp] theorem pending_advanceBy (r : Reader) (n : Nat) :
    (r.advanceBy n).pending = r.pending + min n r.ahead.length := by
  simp [pending, advanceBy, Nat.add_comm]

@[simp] theorem index_advanceBy (r : Reader) (n : Nat) :
    (r.advanceBy n).index = r.index + min n r.ahead.length := by
  simp [index, Nat.add_assoc]

end Reader

end LetDef
