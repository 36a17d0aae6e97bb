import Mathlib
import LetDef.Token.Lexeme

/-!
# The lexical grammar

The recognisers of `LetDef.Token.Lexeme` say what they read of the characters ahead.  This module
says, without them, which words there are at all: `Spelling k w` holds if the characters `w` are
spelled as words of the kind `k` are.  It mentions no text around the word and no order in which
kinds are tried, so it says nothing of what a recogniser does where several words fit.  That is the
business of `Longest`, which picks the longest of the words that a text starts with.

`""` is a word, and yet a text that starts with three double quotes starts with no token.
`tripleQuote` names that one exception.
-/

namespace LetDef

/-! ## Parts of words -/

/-- A sign in front of a number, or none. -/
def IsSignPart (s : List Char) : Prop :=
  s = [] ∨ s = ['+'] ∨ s = ['-']

/-- One digit or more. -/
def IsDigits (ds : List Char) : Prop :=
  ds ≠ [] ∧ ∀ d ∈ ds, d.isDigit

/-- The letters that form an escape with a backslash before them. -/
def escapeLetters : List Char := ['b', 'n', 'r', 't', '\\', '\'', '"']

/-- What stands for one character between two quotes: an escape, or any character that is neither
the quote nor a backslash and does not end the line. -/
inductive QuotedUnit (quote : Char) : List Char → Prop where
  | escape {letter : Char} : letter ∈ escapeLetters → QuotedUnit quote ['\\', letter]
  | raw {c : Char} : c ≠ quote → c ≠ '\\' → c ≠ '\n' → c ≠ '\r' → QuotedUnit quote [c]

/-- Any number of units, one after the other. -/
inductive QuotedUnits (quote : Char) : List Char → Prop where
  | nil : QuotedUnits quote []
  | cons {u us : List Char} : QuotedUnit quote u → QuotedUnits quote us →
      QuotedUnits quote (u ++ us)

/-! ## Words -/

/-- The words of each kind. -/
inductive Spelling : Token.Kind → List Char → Prop where
  | identifier {c : Char} {cs : List Char} :
      isNameStart c → (∀ x ∈ cs, isNamePart x) → Spelling .identifier (c :: cs)
  | integer {s ds : List Char} : IsSignPart s → IsDigits ds → Spelling .integer (s ++ ds)
  | decimal {s ds fs : List Char} :
      IsSignPart s → IsDigits ds → IsDigits fs → Spelling .decimal (s ++ ds ++ '.' :: fs)
  | character {u : List Char} : QuotedUnit '\'' u → Spelling .character ('\'' :: (u ++ ['\'']))
  | string {us : List Char} : QuotedUnits '"' us → Spelling .string ('"' :: (us ++ ['"']))
  | comparison {c : Char} : c ∈ ['<', '>', '!', '='] → Spelling .operator [c, '=']
  | single {c : Char} : c ≠ '\'' → c ≠ '"' → ¬ isNameStart c → ¬ c.isDigit →
      Spelling .operator [c]

/-- The spelling of names, in a form that can be computed. -/
lemma spelling_of_all (c : Char) (cs : List Char) (hc : isNameStart c = true)
    (hcs : cs.all isNamePart = true) : Spelling .identifier (c :: cs) :=
  .identifier hc (List.all_eq_true.1 hcs)

/-- The literal of the token is a word of its kind. -/
def Token.WellSpelled (t : Token) : Prop :=
  Spelling t.kind t.literal.toList

/-- The word `w` of the kind `k` is the longest word that the text `cs` starts with. -/
structure Longest (k : Token.Kind) (w cs : List Char) : Prop where
  spelling : Spelling k w
  starts : w <+: cs
  longest : ∀ k' w', Spelling k' w' → w' <+: cs → w'.length ≤ w.length

/-- The start of a text that has no first token, although `""` is a word. -/
def tripleQuote : List Char := ['"', '"', '"']

/-! ## Character classes -/

lemma isEscapeLetter_iff {c : Char} : Quoted.isEscapeLetter c ↔ c ∈ escapeLetters := by
  unfold Quoted.isEscapeLetter Quoted.escapeValue?
  split <;> simp_all [escapeLetters]

lemma isLineEnd_iff {c : Char} : isLineEnd c ↔ c = '\n' ∨ c = '\r' := by
  simp [isLineEnd]

lemma isSign_iff {c : Char} : isSign c ↔ c = '+' ∨ c = '-' := by
  simp [isSign]

lemma isComparison_iff {c : Char} : isComparison c ↔ c ∈ ['<', '>', '!', '='] := by
  simp [isComparison, or_assoc]

/-- A digit starts no name. -/
lemma not_isNameStart_of_isDigit {c : Char} (h : c.isDigit) : ¬ isNameStart c := by
  intro hs
  rcases Bool.or_eq_true _ _ |>.mp hs with ha | hu
  · simp only [Char.isDigit, Char.isAlpha, Char.isUpper, Char.isLower, Bool.or_eq_true,
      Bool.and_eq_true, decide_eq_true_eq, UInt32.le_iff_toNat_le, ge_iff_le] at h ha
    simp only [Char.reduceVal, UInt32.reduceToNat] at h ha
    omega
  · rw [of_decide_eq_true hu] at h
    exact absurd h (by decide)

lemma not_isDigit_of_isSign {c : Char} (h : isSign c) : ¬ c.isDigit := by
  rcases isSign_iff.1 h with rfl | rfl <;> decide

lemma not_isNameStart_of_isSign {c : Char} (h : isSign c) : ¬ isNameStart c := by
  rcases isSign_iff.1 h with rfl | rfl <;> decide

end LetDef
