import LetDef.Proofs.Dump.Leaves

/-!
# What a notation denotes

A decimal number is not revealed by its notation, since zeros may be added to its digits instead of
a negative scale, and zero has a single form.  What is revealed is the number that it denotes
(`Decimal.value`).

To see that, a notation is read back.  `Decimal.ofChars?` would do so, but it refuses scales that no
word of 64 bits can hold, and what is written here may have any scale.  `reading` is the same
without that test, and where zeros were added it finds another decimal number of the same value.
-/

namespace LetDef

namespace Numeral

/-- Digits with zeros in front and a sign are read as an integer. -/
lemma integer?_sign_append {ds : List Char} (hds : IsDigits ds) {i : Int}
    (hvalue : Nat.ofDigitChars 10 ds 0 = i.natAbs) :
    integer? ((if i < 0 then ['-'] else []) ++ ds) = some i := by
  split
  case isTrue hneg =>
    rw [List.singleton_append, integer?, if_pos rfl, natural?_of_isDigits hds, hvalue,
      Option.map_some]
    congr 1
    omega
  case isFalse hneg =>
    rw [List.nil_append, integer?_of_isDigits hds, hvalue]
    congr 1
    omega

end Numeral

namespace Decimal

/-- The number that a decimal number denotes, whatever its scale. -/
def value (d : Decimal) : ℚ := d.unscaled * (10 : ℚ) ^ (-d.scale)

/-- A decimal number that has the notation, up to the scale. -/
def reading (cs : List Char) : Decimal :=
  let mantissa := cs.takeWhile fun c => !isExponentMark c
  let power := (cs.dropWhile fun c => !isExponentMark c).drop 1
  let fraction := (mantissa.dropWhile (· ≠ '.')).drop 1
  ⟨(Numeral.integer? (mantissa.filter (· ≠ '.'))).getD 0,
    fraction.length - (Numeral.integer? power).getD 0⟩

/-- A fraction with its point, if there is one. -/
def pointBefore (fs : List Char) : List Char :=
  if fs.isEmpty then [] else '.' :: fs

lemma not_isExponentMark_of_isSignOrDigit {c : Char} (h : Numeral.isSignOrDigit c) :
    (!isExponentMark c) = true := by
  rcases Bool.or_eq_true_iff.1 h with hsign | hdigit
  · rw [of_decide_eq_true hsign]
    rfl
  · exact not_isExponentMark_of_isDigit hdigit

lemma ne_point_of_isSignOrDigit {c : Char} (h : Numeral.isSignOrDigit c) :
    decide (c ≠ '.') = true := by
  rcases Bool.or_eq_true_iff.1 h with hsign | hdigit
  · rw [of_decide_eq_true hsign]
    rfl
  · exact decide_eq_true (isDigit_ne hdigit rfl)

lemma drop_pointBefore (fs : List Char) : (pointBefore fs).drop 1 = fs := by
  cases fs <;> rfl

lemma head?_pointBefore (fs : List Char) : ∀ c ∈ (pointBefore fs).head?, c = '.' := by
  cases fs <;> simp [pointBefore]

lemma eq_of_mem_pointBefore {fs : List Char} {c : Char} (h : c ∈ pointBefore fs) :
    c = '.' ∨ c ∈ fs := by
  unfold pointBefore at h
  split at h
  · exact absurd h List.not_mem_nil
  · exact List.mem_cons.1 h

/-- The mantissa, its fraction and the exponent are found where they were put together. -/
lemma reading_append {ws fs power : List Char} (hws : ∀ c ∈ ws, Numeral.isSignOrDigit c)
    (hfs : ∀ c ∈ fs, Numeral.isSignOrDigit c) (hpower : ∀ c ∈ power.head?, isExponentMark c) :
    reading (ws ++ pointBefore fs ++ power) =
      ⟨(Numeral.integer? (ws ++ fs)).getD 0,
        fs.length - (Numeral.integer? (power.drop 1)).getD 0⟩ := by
  have hmantissa : ∀ c ∈ ws ++ pointBefore fs, (!isExponentMark c) = true := by
    intro c hc
    rcases List.mem_append.1 hc with hwhole | hpoint
    · exact not_isExponentMark_of_isSignOrDigit (hws c hwhole)
    rcases eq_of_mem_pointBefore hpoint with rfl | hfraction
    · rfl
    · exact not_isExponentMark_of_isSignOrDigit (hfs c hfraction)
  have hmark : ∀ c ∈ power.head?, (!isExponentMark c) = false := by
    intro c hc
    rw [hpower c hc, Bool.not_true]
  have hwhole : ∀ c ∈ ws, decide (c ≠ '.') = true :=
    fun c hc => ne_point_of_isSignOrDigit (hws c hc)
  have hpoint : ∀ c ∈ (pointBefore fs).head?, decide (c ≠ '.') = false := by
    intro c hc
    rw [head?_pointBefore fs c hc]
    rfl
  have hdigits : (ws ++ pointBefore fs).filter (· ≠ '.') = ws ++ fs := by
    rw [List.filter_append, List.filter_eq_self.2 hwhole]
    congr 1
    have hfraction : fs.filter (· ≠ '.') = fs :=
      List.filter_eq_self.2 fun c hc => ne_point_of_isSignOrDigit (hfs c hc)
    unfold pointBefore
    split
    · next hempty => exact (List.isEmpty_iff.1 hempty).symm
    · rw [List.filter_cons_of_neg (by decide), hfraction]
  obtain ⟨htake, hdrop⟩ := span_of_class hmantissa hmark
  obtain ⟨-, hfraction⟩ := span_of_class hwhole hpoint
  unfold reading
  simp only [htake, hdrop, hfraction, hdigits, drop_pointBefore]

/-- The sign in front of a notation. -/
def signOf (i : Int) : List Char := if i < 0 then ['-'] else []

/-- Digits with a sign in front of them and a point among them. -/
lemma reading_signOf_append {i : Int} {ws fs power : List Char} (hdigits : IsDigits (ws ++ fs))
    (hvalue : Nat.ofDigitChars 10 (ws ++ fs) 0 = i.natAbs)
    (hpower : ∀ c ∈ power.head?, isExponentMark c) :
    reading (signOf i ++ (ws ++ (pointBefore fs ++ power))) =
      ⟨i, fs.length - (Numeral.integer? (power.drop 1)).getD 0⟩ := by
  have hclass : ∀ c ∈ ws ++ fs, Numeral.isSignOrDigit c :=
    fun c hc => Bool.or_eq_true_iff.2 (.inr (hdigits.2 c hc))
  have hwhole : ∀ c ∈ signOf i ++ ws, Numeral.isSignOrDigit c := by
    intro c hc
    rcases List.mem_append.1 hc with hsign | hdigit
    · unfold signOf at hsign
      split at hsign
      · rw [List.mem_singleton.1 hsign]
        rfl
      · exact absurd hsign List.not_mem_nil
    · exact hclass c (List.mem_append_left fs hdigit)
  have hfraction : ∀ c ∈ fs, Numeral.isSignOrDigit c :=
    fun c hc => hclass c (List.mem_append_right ws hc)
  have hinteger : Numeral.integer? (signOf i ++ (ws ++ fs)) = some i :=
    Numeral.integer?_sign_append hdigits hvalue
  rw [← List.append_assoc, ← List.append_assoc, reading_append hwhole hfraction hpower,
    List.append_assoc, hinteger, Option.getD_some]

lemma ofDigitChars_natAbs (i : Int) : Nat.ofDigitChars 10 (Numeral.ofNat i.natAbs) 0 = i.natAbs :=
  Nat.ofDigitChars_ten_toDigits

/-- A notation with an exponent that counts from behind the first digit. -/
lemma reading_scientific (d : Decimal) :
    reading (signOf d.unscaled ++ scientific (Numeral.ofNat d.unscaled.natAbs) d.scale) = d := by
  have hdigits := Numeral.isDigits_ofNat d.unscaled.natAbs
  have hvalue := ofDigitChars_natAbs d.unscaled
  generalize Numeral.ofNat d.unscaled.natAbs = digits at hdigits hvalue
  obtain ⟨c, fs, rfl⟩ := List.exists_cons_of_ne_nil hdigits.1
  have hmark : ∀ x ∈ ('E' :: Numeral.ofInt (((c :: fs).length : Int) - 1 - d.scale)).head?,
      isExponentMark x := by
    intro x hx
    obtain rfl : 'E' = x := Option.some.inj hx
    rfl
  have hread := reading_signOf_append (show IsDigits ([c] ++ fs) from hdigits) hvalue hmark
  have hscale : (fs.length : Int) - (((c :: fs).length : Int) - 1 - d.scale) = d.scale := by
    rw [List.length_cons]
    omega
  rw [List.drop_one, List.tail_cons, Numeral.integer?_ofInt, Option.getD_some, hscale] at hread
  exact hread

/-- Digits alone, with an exponent that counts from behind the last of them. -/
lemma reading_exponent (d : Decimal) (hscale : maxAddedZeros < -d.scale) :
    reading (signOf d.unscaled ++
      (Numeral.ofNat d.unscaled.natAbs ++ ("e+".toList ++ Numeral.ofInt (-d.scale)))) = d := by
  have hdigits : IsDigits (Numeral.ofNat d.unscaled.natAbs ++ []) := by
    rw [List.append_nil]
    exact Numeral.isDigits_ofNat _
  have hvalue : Nat.ofDigitChars 10 (Numeral.ofNat d.unscaled.natAbs ++ []) 0 =
      d.unscaled.natAbs := by
    rw [List.append_nil]
    exact ofDigitChars_natAbs _
  have hmark : ∀ c ∈ ("e+".toList ++ Numeral.ofInt (-d.scale)).head?, isExponentMark c := by
    intro c hc
    obtain rfl : 'e' = c := Option.some.inj hc
    rfl
  have hread := reading_signOf_append hdigits hvalue hmark
  have hpower : ("e+".toList ++ Numeral.ofInt (-d.scale)).drop 1 =
      '+' :: Numeral.ofInt (-d.scale) := rfl
  have hpositive : ¬ -d.scale < 0 := by
    rw [maxAddedZeros] at hscale
    omega
  have hplus : Numeral.integer? ('+' :: Numeral.ofInt (-d.scale)) = some (-d.scale) := by
    rw [Numeral.ofInt, if_neg hpositive, Numeral.integer?, if_neg (by decide), if_pos rfl,
      Numeral.natural?_ofNat, Option.map_some]
    congr 1
    exact Int.natAbs_of_nonneg (Int.not_lt.1 hpositive)
  have hzero : (([] : List Char).length : Int) - -d.scale = d.scale := by
    rw [List.length_nil]
    omega
  rw [hpower, hplus, Option.getD_some, hzero] at hread
  exact hread

lemma not_mem_head?_nil : ∀ c ∈ ([] : List Char).head?, isExponentMark c :=
  fun _ hc => absurd hc (by simp)

/-- The plain notation. -/
lemma reading_pointed (d : Decimal) (hscale : 0 < d.scale) :
    reading (signOf d.unscaled ++
      pointed (Numeral.ofNat d.unscaled.natAbs) d.scale.toNat) = d := by
  obtain ⟨ws, fs, hpointed, hws, hfs, hlength, hpadded⟩ :=
    exists_pointed (Numeral.isDigits_ofNat d.unscaled.natAbs) (places_ne_zero hscale)
  have hvalue : Nat.ofDigitChars 10 (ws ++ fs) 0 = d.unscaled.natAbs := by
    rw [hpadded]
    exact ofDigitChars_zeros _ _
  have hread := reading_signOf_append (isDigits_append hws hfs) hvalue not_mem_head?_nil
  have hpoint : pointBefore fs = '.' :: fs := if_neg (by simp [hfs.1])
  have hplaces : (fs.length : Int) - (Numeral.integer? []).getD 0 = d.scale := by
    rw [Numeral.integer?, Option.getD_none]
    omega
  rw [hpoint, List.append_nil, List.drop_nil, hplaces, ← hpointed] at hread
  exact hread

/-- Zeros that are added to the digits change the scale but not the value. -/
lemma value_reading_zeros (d : Decimal) (hscale : d.scale ≤ 0) :
    (reading (signOf d.unscaled ++ (Numeral.ofNat d.unscaled.natAbs ++
      List.replicate (-d.scale).toNat '0'))).value = d.value := by
  obtain ⟨k, hk⟩ : ∃ k : Nat, -d.scale = k := Int.eq_ofNat_of_zero_le (by omega)
  rw [hk, Int.toNat_natCast]
  have hsign : signOf d.unscaled = signOf (d.unscaled * 10 ^ k) := by
    have hpos : (0 : Int) < 10 ^ k := by positivity
    have hiff : d.unscaled * 10 ^ k < 0 ↔ d.unscaled < 0 := by
      rw [← not_le, ← not_le, mul_nonneg_iff_of_pos_right hpos]
    simp only [signOf, hiff]
  have hdigits : IsDigits ((Numeral.ofNat d.unscaled.natAbs ++ List.replicate k '0') ++ []) := by
    rw [List.append_nil]
    refine ⟨List.append_ne_nil_of_left_ne_nil (Numeral.isDigits_ofNat _).1 _, ?_⟩
    intro c hc
    rcases List.mem_append.1 hc with hdigit | hzero
    · exact Numeral.isDigit_of_mem_ofNat hdigit
    · rw [List.eq_of_mem_replicate hzero]
      rfl
  have hvalue : Nat.ofDigitChars 10
      ((Numeral.ofNat d.unscaled.natAbs ++ List.replicate k '0') ++ []) 0 =
      (d.unscaled * 10 ^ k).natAbs := by
    rw [List.append_nil, Nat.ofDigitChars_append, ofDigitChars_natAbs,
      Nat.ofDigitChars_replicate_zero, Int.natAbs_mul, Int.natAbs_pow, Nat.mul_comm]
    rfl
  have hread := reading_signOf_append hdigits hvalue not_mem_head?_nil
  have hplaces : (([] : List Char).length : Int) - (Numeral.integer? []).getD 0 = 0 := rfl
  rw [List.drop_nil, hplaces, ← hsign] at hread
  have hempty : pointBefore [] ++ [] = [] := rfl
  rw [hempty, List.append_nil] at hread
  rw [hread, value, value, hk]
  push_cast
  rw [mul_one, zpow_natCast]

/-- What is read from a notation denotes the number that was written. -/
theorem value_reading_chars (d : Decimal) : (reading d.chars).value = d.value := by
  unfold chars
  split
  case isTrue hzero =>
    have hread : (reading ['0']).unscaled = 0 := by decide
    rw [value, value, hzero, hread, Int.cast_zero, zero_mul, zero_mul]
  case isFalse hnonzero =>
    show (reading (signOf d.unscaled ++ magnitude _ _)).value = _
    unfold magnitude
    split
    · rw [reading_scientific]
    split
    case isTrue hlarge => rw [reading_exponent d hlarge]
    split
    case isTrue hscale => exact value_reading_zeros d hscale
    case isFalse hscale => rw [reading_pointed d (by omega)]

end Decimal

end LetDef
