/-!
# Whole numbers as text

Whole numbers are written in decimal digits with a minus sign in front if they are negative.

They are read more liberally than they are written, and more liberally than they are recognised in a
text, since a token may also come from elsewhere.  Digits may be grouped with underscores, except in
front of the first one, and a plus sign is allowed.  Only ASCII digits count.

Statement: what is written is read back (`Numeral.integer?_ofInt`).
-/

namespace LetDef.Numeral

/-! ## Writing -/

/-- The digits of a natural number, the highest first. -/
def ofNat (n : Nat) : List Char := Nat.toDigits 10 n

/-- The digits of an integer, with a minus sign in front if it is negative. -/
def ofInt (i : Int) : List Char :=
  if i < 0 then '-' :: ofNat i.natAbs else ofNat i.natAbs

/-! ## Reading -/

/-- The value of a run of digits, which may be grouped with underscores but not start with one. -/
def natural? (cs : List Char) : Option Nat :=
  if cs.isEmpty ∨ cs.head? = some '_' then none
  else
    let digits := cs.filter (· ≠ '_')
    if digits.all Char.isDigit then some (Nat.ofDigitChars 10 digits 0) else none

/-- The value of a run of digits with a sign in front or none. -/
def integer? : List Char → Option Int
  | [] => none
  | c :: cs =>
    if c = '-' then (natural? cs).map fun (n : Nat) => -(n : Int)
    else if c = '+' then (natural? cs).map Int.ofNat
    else (natural? (c :: cs)).map Int.ofNat

/-- The characters without a plus sign at the front. -/
def withoutPlus : List Char → List Char
  | [] => []
  | c :: cs => if c = '+' then cs else c :: cs

/-- The value of an integer token, which may have a plus sign in front of its number. -/
def ofToken? (literal : String) : Option Int :=
  integer? (withoutPlus literal.toList)

/-! ## Reading back -/

theorem isDigit_of_mem_ofNat {c : Char} {n : Nat} (h : c ∈ ofNat n) : c.isDigit :=
  Nat.isDigit_of_mem_toDigits (by decide) (by decide) h

theorem natural?_ofNat (n : Nat) : natural? (ofNat n) = some n := by
  have hbar : '_' ∉ ofNat n := Nat.underscore_not_in_toDigits
  have hhead : (ofNat n).head? ≠ some '_' := fun h => hbar (List.mem_of_head? h)
  have hfilter : (ofNat n).filter (· ≠ '_') = ofNat n :=
    List.filter_eq_self.2 fun c hc => decide_eq_true fun h => hbar (h ▸ hc)
  have hdigits : (ofNat n).all Char.isDigit :=
    List.all_eq_true.2 fun c hc => isDigit_of_mem_ofNat hc
  have hne : ofNat n ≠ [] := Nat.toDigits_ne_nil
  rw [natural?, if_neg (by simp [hne, hhead])]
  simp only [hfilter, hdigits, if_true]
  exact congrArg some Nat.ofDigitChars_ten_toDigits

/-- An integer that has been written down is read back. -/
theorem integer?_ofInt (i : Int) : integer? (ofInt i) = some i := by
  unfold ofInt
  split
  case isTrue h =>
    have habs : -(i.natAbs : Int) = i := by omega
    simp only [integer?, if_true, natural?_ofNat, Option.map_some, habs]
  case isFalse h =>
    have hne : ofNat i.natAbs ≠ [] := Nat.toDigits_ne_nil
    obtain ⟨c, cs, hcs⟩ := List.exists_cons_of_ne_nil hne
    have hdigit : c.isDigit := isDigit_of_mem_ofNat (hcs ▸ List.mem_cons_self)
    have hminus : c ≠ '-' := by rintro rfl; simp at hdigit
    have hplus : c ≠ '+' := by rintro rfl; simp at hdigit
    rw [hcs]
    simp only [integer?, if_neg hminus, if_neg hplus]
    have habs : Int.ofNat i.natAbs = i := by simp; omega
    rw [← hcs, natural?_ofNat, Option.map_some, habs]

end LetDef.Numeral
