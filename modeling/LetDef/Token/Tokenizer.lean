import LetDef.Token.Lexeme
import LetDef.Token.Reader

/-!
# From text to tokens

`Reader.scan` lets a recogniser read at the place where a reader stands: if it recognises a lexeme,
the characters held become a token, and if not, they stay held and the fault points just past them.

A `Tokenizer` is a reader that also remembers whether it has met a fault.  `Tokenizer.next` skips
blanks and scans one token; after a fault there is no next token any more.  `Tokenizer.tokens` asks
for tokens until there is none, and `tokenize` does so for a whole text.
-/

namespace LetDef

/-! ## Scanning with a recogniser -/

/-- Reads what the recogniser says and makes a token of it, or reports why there is none. -/
def Reader.scan (recognise : List Char → Reading Token.Kind) (r : Reader) :
    Except Fault Token × Reader :=
  let reading := recognise r.ahead
  let moved := r.advanceBy reading.length
  match reading.verdict with
  | .ok kind => ((.ok (moved.cut kind).1), (moved.cut kind).2)
  | .error cause => (.error ⟨cause, moved.index⟩, moved)

/-- Reads an escape; it makes no token, and the characters stay held. -/
def Reader.scanEscape (r : Reader) : Except Fault Unit × Reader :=
  let reading := Lexeme.escape r.ahead
  let moved := r.advanceBy reading.length
  match reading.verdict with
  | .ok _ => (.ok (), moved)
  | .error cause => (.error ⟨cause, moved.index⟩, moved)

/-- Reads the blanks ahead and drops what is held with them; if there are none, nothing changes. -/
def Reader.skipBlanks (r : Reader) : Reader :=
  match (r.ahead.takeWhile isBlank).length with
  | 0 => r
  | blanks + 1 => (r.advanceBy (blanks + 1)).mark

theorem Reader.ahead_scan (recognise : List Char → Reading Token.Kind) (r : Reader) :
    (r.scan recognise).2.ahead = r.ahead.drop (recognise r.ahead).length := by
  unfold Reader.scan
  simp only
  split <;> rfl

theorem Reader.length_ahead_skipBlanks_le (r : Reader) :
    r.skipBlanks.ahead.length ≤ r.ahead.length := by
  unfold Reader.skipBlanks
  split <;> simp

/-! ## Tokenizers -/

/-- A reader, and whether `next` has met a fault. -/
structure Tokenizer where
  /-- Where the tokenizer stands. -/
  reader : Reader
  /-- Whether a fault has ended the sequence of tokens. -/
  failed : Bool

namespace Tokenizer

/-- A tokenizer at the start of a text. -/
def ofString (text : String) : Tokenizer := ⟨Reader.ofString text, false⟩

/-- Scans with the given recogniser where the tokenizer stands, blanks or not. -/
def scan (recognise : List Char → Reading Token.Kind) (t : Tokenizer) :
    Except Fault Token × Tokenizer :=
  let (answer, reader) := t.reader.scan recognise
  (answer, { t with reader })

/-- Reads an escape where the tokenizer stands. -/
def scanEscape (t : Tokenizer) : Except Fault Unit × Tokenizer :=
  let (answer, reader) := t.reader.scanEscape
  (answer, { t with reader })

/-- The next token after the blanks ahead.  There is none at the end of the text and after a
fault. -/
def next (t : Tokenizer) : Option (Except Fault Token) × Tokenizer :=
  if t.failed then (none, t)
  else
    let reader := t.reader.skipBlanks
    if reader.ahead.isEmpty then (none, { t with reader })
    else
      match reader.scan Lexeme.token with
      | (.ok token, reader) => (some (.ok token), ⟨reader.mark, false⟩)
      | (.error fault, reader) => (some (.error fault), ⟨reader.mark, true⟩)

theorem length_ahead_next_lt {t t' : Tokenizer} {token : Token}
    (h : t.next = (some (.ok token), t')) :
    t'.reader.ahead.length < t.reader.ahead.length := by
  unfold next at h
  split at h
  · simp at h
  simp only at h
  split at h
  · simp at h
  case isFalse hne =>
    have hblank := t.reader.length_ahead_skipBlanks_le
    have hne : t.reader.skipBlanks.ahead ≠ [] := by simpa using hne
    have hpos := Lexeme.token_length_pos hne
    have hlen := List.length_pos_iff.2 hne
    have hahead := Reader.ahead_scan Lexeme.token t.reader.skipBlanks
    split at h
    case h_1 heq =>
      simp only [Prod.mk.injEq] at h
      rw [heq] at hahead
      rw [← h.2, Reader.ahead_mark, hahead, List.length_drop]
      omega
    case h_2 => simp at h

/-- All tokens from here on, or the first fault. -/
def tokens (t : Tokenizer) : Except Fault (List Token) :=
  match _h : t.next with
  | (none, _) => .ok []
  | (some (.error fault), _) => .error fault
  | (some (.ok token), t') => do
    let rest ← t'.tokens
    pure (token :: rest)
termination_by t.reader.ahead.length
decreasing_by exact length_ahead_next_lt _h

end Tokenizer

/-- The tokens of a text, or its first fault. -/
def tokenize (text : String) : Except Fault (List Token) :=
  (Tokenizer.ofString text).tokens

end LetDef
