import LetDef.Proofs.Lexical.Partition

/-!
# Recognisers at the end of a line

No recogniser looks past the end of a line: what it says of a text is what it says of the text up to
the first line end, also where it refuses the text.  Any other blank ends a token that is recognised
before it, but not one that is refused, because a quoted text that has not been closed may hold a
space.  `EndsReading` is what both have in common, and under it each recogniser is shown to say the
same with and without what follows the blank.  `Lexeme.token_append` puts them together.
-/

namespace LetDef

namespace Lexeme

variable {c : Char} {rest : List Char}

/-! ## Words that a blank ends -/

lemma isBlank_of_isLineEnd (h : isLineEnd c) : isBlank c := by
  rcases isLineEnd_iff.1 h with rfl | rfl <;> rfl

lemma ne_of_isBlank {d : Char} (hc : isBlank c) (hd : ¬ isBlank d) : c ≠ d := by
  rintro rfl
  exact hd hc

/-- A character without the property ends the prefix of those that have it, whatever follows it. -/
lemma takeWhile_append_stop {p : Char → Bool} (hc : ¬ p c) (cs rest : List Char) :
    (cs ++ c :: rest).takeWhile p = cs.takeWhile p := by
  induction cs with
  | nil => exact List.takeWhile_cons_of_neg hc
  | cons d cs ih =>
    by_cases hd : p d
    · rw [List.cons_append, List.takeWhile_cons_of_pos hd, List.takeWhile_cons_of_pos hd, ih]
    · rw [List.cons_append, List.takeWhile_cons_of_neg hd, List.takeWhile_cons_of_neg hd]

lemma optional_append_stop {p : Char → Bool} (hc : ¬ p c) (cs rest : List Char) :
    optional p (cs ++ c :: rest) = optional p cs := by
  rcases cs with _ | ⟨d, cs⟩
  · exact if_neg hc
  · rfl

lemma optional_le_length (p : Char → Bool) (cs : List Char) : optional p cs ≤ cs.length := by
  rcases cs with _ | ⟨d, cs⟩
  · exact Nat.le_refl 0
  · have := optional_le_one p (d :: cs)
    rw [List.length_cons]
    omega

/-- What is no digit and no point ends a fractional part, or the place where one could start. -/
lemma fraction_append_stop (hpoint : c ≠ '.') (hdigit : ¬ c.isDigit) (cs rest : List Char) :
    fraction (cs ++ c :: rest) = fraction cs := by
  rcases cs with _ | ⟨d, cs⟩
  · exact if_neg hpoint
  · simp only [List.cons_append, fraction, takeWhile_append_stop hdigit]

lemma fraction_le_length (cs : List Char) : fraction cs ≤ cs.length := by
  rcases fraction_eq_zero_or cs with hzero | ⟨fs, rest, rfl, -, hlength⟩
  · omega
  · rw [hlength]
    simp only [List.length_cons, List.length_append]
    omega

/-- The sign and the digits before the point are within the text. -/
lemma number_whole_le_length (cs : List Char) :
    optional isSign cs + ((cs.drop (optional isSign cs)).takeWhile Char.isDigit).length ≤
      cs.length := by
  have hsign := optional_le_length isSign cs
  have hdigits := (List.takeWhile_sublist (p := Char.isDigit)
    (l := cs.drop (optional isSign cs))).length_le
  rw [List.length_drop] at hdigits
  omega

/-- What can be no part of a number ends it. -/
lemma number_append_stop (hsign : ¬ isSign c) (hdigit : ¬ c.isDigit) (hpoint : c ≠ '.')
    (cs rest : List Char) : number (cs ++ c :: rest) = number cs := by
  have hwhole := number_whole_le_length cs
  simp only [number, optional_append_stop hsign, List.drop_append_of_le_length
    (optional_le_length isSign cs), takeWhile_append_stop hdigit,
    List.drop_append_of_le_length hwhole, fraction_append_stop hpoint hdigit]

/-- Only an equals sign could make an operator longer. -/
lemma operator_append_stop (hequals : c ≠ '=') {cs : List Char} (hne : cs ≠ [])
    (rest : List Char) : operator (cs ++ c :: rest) = operator cs := by
  obtain ⟨d, cs, rfl⟩ := List.exists_cons_of_ne_nil hne
  have hstop : optional (· = '=') (cs ++ c :: rest) = optional (· = '=') cs :=
    optional_append_stop (by simpa using hequals) cs rest
  simp only [List.cons_append, operator, hstop]

/-! ## Quoted texts -/

/-- The character ends whatever the reading is about: it ends the line, or the reading succeeds
without it. -/
def EndsReading (c : Char) (r : Reading Token.Kind) : Prop :=
  isLineEnd c ∨ ∃ k, r.verdict = .ok k

/-- Of a refused text the line must end. -/
lemma EndsReading.isLineEnd {n : Nat} {cause : Cause} (h : EndsReading c ⟨n, .error cause⟩) :
    LetDef.isLineEnd c :=
  h.elim id fun ⟨_, hk⟩ => absurd hk (by simp)

/-- What was read before does not matter for where the reading ends. -/
lemma EndsReading.of_after {n : Nat} {r : Reading Token.Kind} (h : EndsReading c (r.after n)) :
    EndsReading c r :=
  h

/-- Where the line ends, a quote that is missing is still missing. -/
lemma closingQuote_append_stop {cs : List Char} (h : EndsReading c (closingQuote cs))
    (rest : List Char) : closingQuote (cs ++ c :: rest) = closingQuote cs := by
  rcases cs with _ | ⟨d, cs⟩
  · have hend := h.isLineEnd
    have hquote : c ≠ '\'' := ne_of_isBlank (isBlank_of_isLineEnd hend) (by decide)
    simp [closingQuote, hquote, hend]
  · rfl

lemma closingQuote_length_le (cs : List Char) : (closingQuote cs).length ≤ cs.length := by
  rcases cs with _ | ⟨d, cs⟩
  · exact Nat.le_refl 0
  · simp only [closingQuote]
    split_ifs <;> simp

lemma not_isEscapeLetter_of_isLineEnd (h : isLineEnd c) : ¬ Quoted.isEscapeLetter c := by
  rcases isLineEnd_iff.1 h with rfl | rfl <;> decide

/-- The unit of a character literal and its closing quote are found on the line or nowhere.  The
cases follow the first character: an escape, an end of the line, any other one. -/
lemma characterUnit_append_stop {cs : List Char} (h : EndsReading c (characterUnit cs))
    (rest : List Char) : characterUnit (cs ++ c :: rest) = characterUnit cs := by
  rcases cs with _ | ⟨d, cs⟩
  · have hend := h.isLineEnd
    have hslash : c ≠ '\\' := ne_of_isBlank (isBlank_of_isLineEnd hend) (by decide)
    simp [characterUnit, hslash, hend]
  by_cases hslash : d = '\\'
  · subst hslash
    rcases cs with _ | ⟨letter, cs⟩
    · have hletter := not_isEscapeLetter_of_isLineEnd h.isLineEnd
      simp [characterUnit, hletter]
    · by_cases hletter : Quoted.isEscapeLetter letter
      · have hunit : ∀ tail, characterUnit ('\\' :: letter :: tail) =
            (closingQuote tail).after 2 := fun tail => by simp [characterUnit, hletter]
        rw [hunit] at h ⊢
        rw [List.cons_append, List.cons_append, hunit, closingQuote_append_stop h.of_after]
      · simp [characterUnit, hletter]
  by_cases hend : isLineEnd d
  · simp [characterUnit, hslash, hend]
  · have hunit : ∀ tail, characterUnit (d :: tail) = (closingQuote tail).after 1 :=
      fun tail => by simp [characterUnit, hslash, hend]
    rw [hunit] at h ⊢
    rw [List.cons_append, hunit, closingQuote_append_stop h.of_after]

lemma characterUnit_length_le (cs : List Char) : (characterUnit cs).length ≤ cs.length := by
  rcases cs with _ | ⟨d, _ | ⟨letter, cs⟩⟩
  · exact Nat.le_refl 0
  · have hclose := closingQuote_length_le []
    simp only [characterUnit]
    split_ifs <;> simp_all
  · have hclose := closingQuote_length_le cs
    have hnext := closingQuote_length_le (letter :: cs)
    simp only [characterUnit, List.length_cons] at hnext ⊢
    split_ifs <;> simp only [Reading.length_after] <;> omega

/-- A quote right behind the opening one is wrong, and a second one decides what is wrong. -/
lemma characterBody_quote (cs : List Char) :
    characterBody ('\'' :: cs) = ⟨1 + optional (· = '\'') cs,
      .error (if optional (· = '\'') cs = 1 then .illegalSingleQuote else .missingCharacter)⟩ :=
  rfl

lemma characterBody_of_not_quote {cs : List Char} (h : cs.head? ≠ some '\'') :
    characterBody cs = characterUnit cs := by
  unfold characterBody
  split
  · exact absurd rfl h
  · rfl

/-- A character literal is judged by what stands on its line. -/
lemma characterBody_append_stop (hquote : c ≠ '\'') {cs : List Char}
    (h : EndsReading c (characterBody cs)) (rest : List Char) :
    characterBody (cs ++ c :: rest) = characterBody cs := by
  by_cases hhead : cs.head? = some '\''
  · obtain ⟨cs, rfl⟩ := List.head?_eq_some_iff.1 hhead
    rw [List.cons_append, characterBody_quote, characterBody_quote,
      optional_append_stop (by simpa using hquote)]
  · have hhead' : (cs ++ c :: rest).head? ≠ some '\'' := by
      rcases cs with _ | ⟨d, cs⟩
      · simpa using hquote
      · exact hhead
    rw [characterBody_of_not_quote hhead] at h ⊢
    rw [characterBody_of_not_quote hhead', characterUnit_append_stop h]

lemma characterBody_length_le (cs : List Char) : (characterBody cs).length ≤ cs.length := by
  by_cases hhead : cs.head? = some '\''
  · obtain ⟨cs, rfl⟩ := List.head?_eq_some_iff.1 hhead
    have hnext := optional_le_length (· = '\'') cs
    rw [characterBody_quote, List.length_cons]
    simp only
    omega
  · rw [characterBody_of_not_quote hhead]
    exact characterUnit_length_le cs

/-- An end of the line in a string literal leaves it unterminated. -/
lemma stringUnits_lineEnd (h : isLineEnd c) (rest : List Char) :
    stringUnits (c :: rest) = ⟨0, .error .unterminatedString⟩ := by
  have hquote : c ≠ '"' := ne_of_isBlank (isBlank_of_isLineEnd h) (by decide)
  have hslash : c ≠ '\\' := ne_of_isBlank (isBlank_of_isLineEnd h) (by decide)
  rw [stringUnits.eq_def]
  simp [hslash, hquote, h]

/-- The units of a string literal go up to a closing quote or to a fault, and never past the end of
the line. -/
lemma stringUnits_append_stop {cs : List Char} (h : EndsReading c (stringUnits cs))
    (rest : List Char) : stringUnits (cs ++ c :: rest) = stringUnits cs := by
  induction cs using stringUnits.induct with
  | case1 =>
    rw [stringUnits.eq_def] at h
    rw [List.nil_append, stringUnits_lineEnd h.isLineEnd, stringUnits]
  | case2 =>
    rw [stringUnits.eq_def] at h
    simp [stringUnits, not_isEscapeLetter_of_isLineEnd h.isLineEnd]
  | case3 letter cs hletter ih =>
    rw [stringUnits_escape hletter] at h
    rw [List.cons_append, List.cons_append, stringUnits_escape hletter,
      stringUnits_escape hletter, ih h.of_after]
  | case4 letter cs hletter => simp [stringUnits, hletter]
  | case5 cs hslash => rw [List.cons_append, stringUnits_quote, stringUnits_quote]
  | case6 d cs _ _ hend =>
    rw [List.cons_append, stringUnits_lineEnd hend, stringUnits_lineEnd hend]
  | case7 d cs hslash hquote hend ih =>
    rw [stringUnits_raw hslash hquote hend] at h
    rw [List.cons_append, stringUnits_raw hslash hquote hend, stringUnits_raw hslash hquote hend,
      ih h.of_after]

/-- The units of a string literal are within the text; each unit takes as much of it as it reads. -/
lemma stringUnits_length_le (cs : List Char) : (stringUnits cs).length ≤ cs.length := by
  induction cs using stringUnits.induct with
  | case1 => exact Nat.le_refl 0
  | case2 => simp [stringUnits]
  | case3 letter cs hletter ih =>
    rw [stringUnits_escape hletter, Reading.length_after, List.length_cons, List.length_cons]
    omega
  | case4 letter cs hletter => simp [stringUnits, hletter]
  | case5 cs hslash => simp [stringUnits_quote]
  | case6 d cs _ _ hend => simp [stringUnits_lineEnd hend]
  | case7 d cs hslash hquote hend ih =>
    rw [stringUnits_raw hslash hquote hend, Reading.length_after, List.length_cons]
    omega

lemma stringBody_of_not_quotes {cs : List Char} (h : ¬ ['"', '"'] <+: cs) :
    stringBody cs = stringUnits cs := by
  unfold stringBody
  split
  · next tail => exact absurd (List.prefix_append ['"', '"'] tail) h
  · rfl

/-- A string literal is judged by what stands on its line, and two quotes ahead are on it or not. -/
lemma stringBody_append_stop (hquote : c ≠ '"') {cs : List Char}
    (h : EndsReading c (stringBody cs)) (rest : List Char) :
    stringBody (cs ++ c :: rest) = stringBody cs := by
  by_cases hquotes : ['"', '"'] <+: cs
  · obtain ⟨tail, rfl⟩ := hquotes
    rfl
  · have hquotes' : ¬ ['"', '"'] <+: cs ++ c :: rest := by
      rcases cs with _ | ⟨d, _ | ⟨e, cs⟩⟩
      · simp [hquote.symm]
      · simp [hquote.symm]
      · simpa using hquotes
    rw [stringBody_of_not_quotes hquotes] at h ⊢
    rw [stringBody_of_not_quotes hquotes', stringUnits_append_stop h]

lemma stringBody_length_le (cs : List Char) : (stringBody cs).length ≤ cs.length := by
  by_cases hquotes : ['"', '"'] <+: cs
  · obtain ⟨tail, rfl⟩ := hquotes
    simp [stringBody]
  · rw [stringBody_of_not_quotes hquotes]
    exact stringUnits_length_le cs

/-! ## Any token at a blank -/

/-- What a recogniser says of a text does not change if the text goes on with a line end.  It does
not change before any other blank either, if the recogniser finds a token. -/
theorem token_append {cs : List Char} (hne : cs ≠ []) (hc : isBlank c)
    (h : EndsReading c (token cs)) (rest : List Char) : token (cs ++ c :: rest) = token cs := by
  have hdigit : ¬ c.isDigit := not_of_isBlank (by decide) c hc
  have hpoint : c ≠ '.' := ne_of_isBlank hc (by decide)
  obtain ⟨d, cs, rfl⟩ := List.exists_cons_of_ne_nil hne
  rw [List.cons_append]
  by_cases hname : isNameStart d
  · have hpart : ¬ isNamePart c := not_of_isBlank (by decide) c hc
    rw [token_of_isNameStart hname, token_of_isNameStart hname, ← List.cons_append]
    simp only [identifier, takeWhile_append_stop hpart]
  by_cases hnumber : StartsNumber d cs
  · have hnumber' : StartsNumber d (cs ++ c :: rest) := by
      rwa [StartsNumber, optional_append_stop hdigit]
    rw [token_of_startsNumber hnumber, token_of_startsNumber hnumber', ← List.cons_append,
      number_append_stop (not_of_isBlank (by decide) c hc) hdigit hpoint]
  by_cases hsingle : d = '\''
  · subst hsingle
    have hquote : c ≠ '\'' := ne_of_isBlank hc (by decide)
    have hbody : ∀ tail, character ('\'' :: tail) = (characterBody tail).after 1 := fun _ => rfl
    rw [token_singleQuote, hbody] at h ⊢
    rw [token_singleQuote, hbody, characterBody_append_stop hquote h.of_after]
  by_cases hdouble : d = '"'
  · subst hdouble
    have hquote : c ≠ '"' := ne_of_isBlank hc (by decide)
    have hbody : ∀ tail, string ('"' :: tail) = (stringBody tail).after 1 := fun _ => rfl
    rw [token_doubleQuote, hbody] at h ⊢
    rw [token_doubleQuote, hbody, stringBody_append_stop hquote h.of_after]
  · have hequals : c ≠ '=' := ne_of_isBlank hc (by decide)
    have hnumber' : ¬ StartsNumber d (cs ++ c :: rest) := by
      rwa [StartsNumber, optional_append_stop hdigit]
    rw [token_of_other hname hnumber hsingle hdouble,
      token_of_other hname hnumber' hsingle hdouble, ← List.cons_append,
      operator_append_stop hequals (List.cons_ne_nil d cs)]

/-- A recogniser does not read past the end of the text. -/
theorem token_length_le (cs : List Char) : (token cs).length ≤ cs.length := by
  rcases cs with _ | ⟨d, cs⟩
  · exact Nat.le_refl 0
  by_cases hname : isNameStart d
  · rw [token_of_isNameStart hname]
    exact (List.takeWhile_sublist isNamePart).length_le
  by_cases hnumber : StartsNumber d cs
  · have hwhole := number_whole_le_length (d :: cs)
    have hpart := fraction_le_length ((d :: cs).drop
      (optional isSign (d :: cs) +
        (((d :: cs).drop (optional isSign (d :: cs))).takeWhile Char.isDigit).length))
    rw [List.length_drop] at hpart
    rw [token_of_startsNumber hnumber]
    simp only [number]
    omega
  by_cases hsingle : d = '\''
  · subst hsingle
    have hbody := characterBody_length_le cs
    rw [token_singleQuote, List.length_cons]
    show 1 + (characterBody cs).length ≤ _
    omega
  by_cases hdouble : d = '"'
  · subst hdouble
    have hbody := stringBody_length_le cs
    rw [token_doubleQuote, List.length_cons]
    show 1 + (stringBody cs).length ≤ _
    omega
  · have hnext := optional_le_length (· = '=') cs
    rw [token_of_other hname hnumber hsingle hdouble, List.length_cons]
    simp only [operator]
    split_ifs <;> omega

end Lexeme

end LetDef
