import LetDef.Proofs.Lexical.Spelling

/-!
# Recognisers and words

Each recogniser is described by equations first: what it says of a text that starts with a word of
its kind, whatever comes after the word.  `number_append` and its companions leave the rest of the
text arbitrary, so one equation serves a text that goes on with the word and one that does not.

The equations give both halves of a description of `Lexeme.token`.  A reading that succeeds reads a
word (`startsWithWord_of_token`), and where a text starts with a word, the reading succeeds and is
no shorter (`exists_token_of_spelling`), except after three double quotes.
-/

namespace LetDef.Lexeme

variable {rest : List Char}

/-! ## Equations for the recognisers -/

lemma takeWhile_dropWhile_self (p : Char → Bool) (cs : List Char) :
    (cs.dropWhile p).takeWhile p = [] := by
  induction cs with
  | nil => rfl
  | cons c cs ih =>
    by_cases hc : p c
    · simpa [hc] using ih
    · simp [hc]

/-- A name is read on as far as characters of names go. -/
lemma identifier_append {w : List Char} (hw : ∀ c ∈ w, isNamePart c) (rest : List Char) :
    identifier (w ++ rest) =
      ⟨w.length + (rest.takeWhile isNamePart).length, .ok .identifier⟩ := by
  simp [identifier, List.takeWhile_append_of_pos hw]

/-- A sign in front of digits is read if there is one. -/
lemma optional_isSign {s ds : List Char} (hs : IsSignPart s) (hd : IsDigits ds)
    (rest : List Char) : optional isSign (s ++ (ds ++ rest)) = s.length := by
  rcases hs with rfl | rfl | rfl
  · obtain ⟨d, ds, rfl⟩ := List.exists_cons_of_ne_nil hd.1
    have hdigit : d.isDigit := hd.2 d List.mem_cons_self
    have hsign : ¬ isSign d := fun h => not_isDigit_of_isSign h hdigit
    simp [optional, hsign]
  · simp [optional, isSign]
  · simp [optional, isSign]

/-- A number reads its sign, all digits, and a fraction if there is one. -/
lemma number_append {s ds : List Char} (hs : IsSignPart s) (hd : IsDigits ds)
    (hrest : rest.takeWhile Char.isDigit = []) :
    number (s ++ (ds ++ rest)) =
      ⟨s.length + ds.length + fraction rest,
        .ok (if fraction rest = 0 then .integer else .decimal)⟩ := by
  have hsign := optional_isSign hs hd rest
  have hdigits : (ds ++ rest).takeWhile Char.isDigit = ds := by
    rw [List.takeWhile_append_of_pos hd.2, hrest, List.append_nil]
  have hwhole : (s ++ (ds ++ rest)).drop (s.length + ds.length) = rest := by
    rw [← List.append_assoc, ← List.length_append, List.drop_left]
  simp only [number, hsign, List.drop_left, hdigits, hwhole]

/-- Further digits join the digits of a number. -/
lemma number_append_digits {s ds : List Char} (hs : IsSignPart s) (hd : IsDigits ds)
    (rest : List Char) :
    ∃ more kind, number (s ++ (ds ++ rest)) = ⟨s.length + ds.length + more, .ok kind⟩ := by
  have hall : IsDigits (ds ++ rest.takeWhile Char.isDigit) := by
    refine ⟨by simp [hd.1], fun d hmem => ?_⟩
    rcases List.mem_append.1 hmem with h | h
    · exact hd.2 d h
    · exact List.mem_takeWhile_imp h
  have hsplit : ds ++ rest =
      (ds ++ rest.takeWhile Char.isDigit) ++ rest.dropWhile Char.isDigit := by
    rw [List.append_assoc, List.takeWhile_append_dropWhile]
  rw [hsplit, number_append hs hall (takeWhile_dropWhile_self _ _), List.length_append]
  exact ⟨(rest.takeWhile Char.isDigit).length + fraction (rest.dropWhile Char.isDigit), _,
    by rw [Nat.add_assoc, Nat.add_assoc, Nat.add_assoc]⟩

/-- A point with digits behind it is read with all the digits. -/
lemma fraction_append {fs : List Char} (hf : IsDigits fs) (rest : List Char) :
    fraction ('.' :: (fs ++ rest)) =
      1 + (fs.length + (rest.takeWhile Char.isDigit).length) := by
  have hpos := List.length_pos_iff.2 hf.1
  have hdigits : ((fs ++ rest).takeWhile Char.isDigit).length =
      fs.length + (rest.takeWhile Char.isDigit).length := by
    rw [List.takeWhile_append_of_pos hf.2, List.length_append]
  simp only [fraction, if_true, hdigits]
  exact if_neg (by omega)

/-- A fraction is a point and all the digits after it. -/
lemma fraction_eq_zero_or (cs : List Char) :
    fraction cs = 0 ∨ ∃ fs rest, cs = '.' :: (fs ++ rest) ∧ IsDigits fs ∧
      fraction cs = 1 + fs.length := by
  rcases cs with _ | ⟨c, cs⟩
  · exact .inl rfl
  by_cases hc : c = '.'
  · subst hc
    by_cases hnil : cs.takeWhile Char.isDigit = []
    · exact .inl (by simp [fraction, hnil])
    · have hf : IsDigits (cs.takeWhile Char.isDigit) :=
        ⟨hnil, fun _ => List.mem_takeWhile_imp⟩
      refine .inr ⟨_, cs.dropWhile Char.isDigit, ?_, hf, ?_⟩
      · rw [List.takeWhile_append_dropWhile]
      · have hfrac := fraction_append hf (cs.dropWhile Char.isDigit)
        rwa [List.takeWhile_append_dropWhile, takeWhile_dropWhile_self, List.length_nil,
          Nat.add_zero] at hfrac
  · exact .inl (by simp [fraction, hc])

lemma closingQuote_cons (rest : List Char) :
    closingQuote ('\'' :: rest) = ⟨1, .ok .character⟩ := rfl

/-- A unit in quotes is read as one, and the closing quote is due behind it. -/
lemma characterBody_append_unit {u : List Char} (hu : QuotedUnit '\'' u) (rest : List Char) :
    characterBody (u ++ rest) = (closingQuote rest).after u.length := by
  cases hu with
  | escape hletter =>
    have hesc := isEscapeLetter_iff.2 hletter
    simp [characterBody, characterUnit, hesc]
  | @raw c hquote hslash hn hr =>
    have hend : ¬ isLineEnd c := by simp [isLineEnd_iff, hn, hr]
    simp [characterBody, characterUnit, hquote, hslash, hend]

/-- A character literal is read up to its closing quote. -/
lemma character_append {u : List Char} (hu : QuotedUnit '\'' u) (rest : List Char) :
    character ('\'' :: (u ++ '\'' :: rest)) = ⟨u.length + 2, .ok .character⟩ := by
  simp [character, optional, characterBody_append_unit hu, closingQuote_cons, Reading.after]
  omega

lemma stringUnits_quote (rest : List Char) :
    stringUnits ('"' :: rest) = ⟨1, .ok .string⟩ := by
  rw [stringUnits.eq_def]
  simp

/-- An escape is two characters of a string literal. -/
lemma stringUnits_escape {letter : Char} (h : Quoted.isEscapeLetter letter)
    (rest : List Char) :
    stringUnits ('\\' :: letter :: rest) = (stringUnits rest).after 2 := by
  rw [stringUnits.eq_def]
  simp [h]

/-- Any character that is not special stands for itself in a string literal. -/
lemma stringUnits_raw {c : Char} (hslash : c ≠ '\\') (hquote : c ≠ '"')
    (hend : ¬ isLineEnd c) (rest : List Char) :
    stringUnits (c :: rest) = (stringUnits rest).after 1 := by
  rw [stringUnits.eq_def]
  simp [hslash, hquote, hend]

lemma stringUnits_append_units {us : List Char} (hus : QuotedUnits '"' us) (rest : List Char) :
    stringUnits (us ++ rest) = (stringUnits rest).after us.length := by
  induction hus with
  | nil => simp [Reading.after]
  | @cons u us hu _ ih =>
    have hstep : stringUnits (u ++ (us ++ rest)) = (stringUnits (us ++ rest)).after u.length := by
      cases hu with
      | escape hletter => exact stringUnits_escape (isEscapeLetter_iff.2 hletter) _
      | raw hquote hslash hn hr =>
        exact stringUnits_raw hslash hquote (by simp [isLineEnd_iff, hn, hr]) _
    rw [List.append_assoc, hstep, ih, List.length_append]
    simp [Reading.after, Nat.add_assoc]

/-- Units are read up to the closing quote, by induction on the units. -/
lemma stringUnits_append {us : List Char} (hus : QuotedUnits '"' us) (rest : List Char) :
    stringUnits (us ++ '"' :: rest) = ⟨us.length + 1, .ok .string⟩ := by
  rw [stringUnits_append_units hus, stringUnits_quote]
  rfl

/-- Units start with a double quote only if there are none and the quote closes the string. -/
lemma head?_units_ne_quote {us : List Char} (hus : QuotedUnits '"' us) (hne : us ≠ []) :
    us.head? ≠ some '"' := by
  cases hus with
  | nil => exact absurd rfl hne
  | cons hu _ =>
    cases hu with
    | escape _ => simp
    | raw hquote _ _ _ => simpa using hquote

/-- A string literal is read up to its closing quote, unless it starts with three of them. -/
lemma string_append {us : List Char} (hus : QuotedUnits '"' us)
    (hrest : ¬ tripleQuote <+: '"' :: (us ++ '"' :: rest)) :
    string ('"' :: (us ++ '"' :: rest)) = ⟨us.length + 2, .ok .string⟩ := by
  have hbody : stringBody (us ++ '"' :: rest) = stringUnits (us ++ '"' :: rest) := by
    unfold stringBody
    split
    · next tail h => exact absurd (by simp [tripleQuote, h]) hrest
    · rfl
  simp [string, optional, hbody, stringUnits_append hus, Reading.after]
  omega

/-- A comparison with an equals sign is one operator. -/
lemma operator_comparison {c : Char} (hc : c ∈ ['<', '>', '!', '=']) (rest : List Char) :
    operator (c :: '=' :: rest) = ⟨2, .ok .operator⟩ := by
  simp [operator, isComparison_iff.2 hc, optional]

/-! ## Which recogniser reads -/

/-- The characters `c` and `cs` start with a digit, or with a sign and a digit. -/
def StartsNumber (c : Char) (cs : List Char) : Prop :=
  c.isDigit ∨ isSign c ∧ optional Char.isDigit cs = 1

/-- A letter or an underscore starts a name. -/
lemma token_of_isNameStart {c : Char} (hc : isNameStart c) (rest : List Char) :
    token (c :: rest) = identifier (c :: rest) := by
  simp [token, hc]

lemma token_of_startsNumber {c : Char} {cs : List Char} (h : StartsNumber c cs) :
    token (c :: cs) = number (c :: cs) := by
  have hname : ¬ isNameStart c := by
    rcases h with hdigit | ⟨hsign, -⟩
    · exact not_isNameStart_of_isDigit hdigit
    · exact not_isNameStart_of_isSign hsign
  have hcond : (c.isDigit || (isSign c && optional Char.isDigit cs = 1)) = true := by
    simpa [StartsNumber] using h
  simp only [token, hname, hcond, if_true]
  rfl

/-- A sign and digits start a number. -/
lemma token_number {s ds : List Char} (hs : IsSignPart s) (hd : IsDigits ds)
    (rest : List Char) : token (s ++ (ds ++ rest)) = number (s ++ (ds ++ rest)) := by
  obtain ⟨d, ds, rfl⟩ := List.exists_cons_of_ne_nil hd.1
  have hdigit : d.isDigit := hd.2 d List.mem_cons_self
  rcases hs with rfl | rfl | rfl
  · exact token_of_startsNumber (.inl hdigit)
  · exact token_of_startsNumber (.inr ⟨by decide, by simp [optional, hdigit]⟩)
  · exact token_of_startsNumber (.inr ⟨by decide, by simp [optional, hdigit]⟩)

lemma token_singleQuote (rest : List Char) :
    token ('\'' :: rest) = character ('\'' :: rest) := by
  simp [token, show ¬ isNameStart '\'' by decide, isSign]

lemma token_doubleQuote (rest : List Char) : token ('"' :: rest) = string ('"' :: rest) := by
  simp [token, show ¬ isNameStart '"' by decide, isSign]

/-- Whatever starts no other word is an operator. -/
lemma token_of_other {c : Char} {cs : List Char} (hname : ¬ isNameStart c)
    (hnumber : ¬ StartsNumber c cs) (hsingle : c ≠ '\'') (hdouble : c ≠ '"') :
    token (c :: cs) = operator (c :: cs) := by
  have hcond : ¬ (c.isDigit || (isSign c && optional Char.isDigit cs = 1)) = true := by
    simpa [StartsNumber] using hnumber
  simp only [token, hname, hcond, hsingle, hdouble, if_false]
  rfl

lemma token_comparison {c : Char} (hc : c ∈ ['<', '>', '!', '=']) (rest : List Char) :
    token (c :: '=' :: rest) = ⟨2, .ok .operator⟩ := by
  rw [← operator_comparison hc rest]
  simp only [List.mem_cons, List.not_mem_nil, or_false] at hc
  rcases hc with rfl | rfl | rfl | rfl <;> rfl

/-- Three quotes are refused at once. -/
lemma token_tripleQuote (rest : List Char) :
    token (tripleQuote ++ rest) = ⟨3, .error .doubleQuoteInString⟩ := by
  rw [tripleQuote, List.cons_append, token_doubleQuote]
  rfl

/-! ## A word at hand is read, or a longer one -/

/-- Where a text starts with a word, a token is read, and it is no shorter than the word. -/
theorem exists_token_of_spelling {k : Token.Kind} {w : List Char} (hw : Spelling k w)
    (rest : List Char) (htriple : ¬ tripleQuote <+: w ++ rest) :
    ∃ n k', token (w ++ rest) = ⟨n, .ok k'⟩ ∧ w.length ≤ n := by
  cases hw with
  | @identifier c cs hc hcs =>
    have hall : ∀ x ∈ c :: cs, isNamePart x := by
      simpa [isNamePart_of_isNameStart hc] using hcs
    refine ⟨_, _, (token_of_isNameStart hc _).trans (identifier_append hall rest), ?_⟩
    exact Nat.le_add_right _ _
  | @integer s ds hs hd =>
    obtain ⟨more, kind, hnumber⟩ := number_append_digits hs hd rest
    rw [List.append_assoc, token_number hs hd]
    refine ⟨_, _, hnumber, ?_⟩
    simp
  | @decimal s ds fs hs hd hf =>
    have hshape : s ++ ds ++ '.' :: fs ++ rest = s ++ (ds ++ '.' :: (fs ++ rest)) := by simp
    rw [hshape, token_number hs hd, number_append hs hd (by simp), fraction_append hf]
    refine ⟨_, _, rfl, ?_⟩
    simp only [List.length_append, List.length_cons]
    omega
  | @character u hu =>
    have hshape : '\'' :: (u ++ ['\'']) ++ rest = '\'' :: (u ++ '\'' :: rest) := by simp
    rw [hshape, token_singleQuote, character_append hu]
    exact ⟨_, _, rfl, by simp⟩
  | @string us hus =>
    have hshape : '"' :: (us ++ ['"']) ++ rest = '"' :: (us ++ '"' :: rest) := by simp
    rw [hshape] at htriple ⊢
    rw [token_doubleQuote, string_append hus htriple]
    exact ⟨_, _, rfl, by simp⟩
  | comparison hc => exact ⟨_, _, token_comparison hc rest, Nat.le_refl _⟩
  | @single c hsingle hdouble hname hdigit =>
    by_cases hnumber : StartsNumber c rest
    · refine ⟨_, _, token_of_startsNumber hnumber, number_length_pos rest ?_⟩
      exact hnumber.imp id And.left
    · exact ⟨_, _, token_of_other hname hnumber hsingle hdouble, Nat.le_add_right _ _⟩

/-! ## What is read is a word -/

/-- The first `n` characters of `cs` are a word of the kind `k`. -/
def StartsWithWord (cs : List Char) (n : Nat) (k : Token.Kind) : Prop :=
  ∃ w rest, cs = w ++ rest ∧ w.length = n ∧ Spelling k w

/-- A text with a digit at the front, possibly after a sign, starts with a number. -/
lemma exists_number_prefix {c : Char} {cs : List Char} (h : StartsNumber c cs) :
    ∃ s ds rest, c :: cs = s ++ (ds ++ rest) ∧ IsSignPart s ∧ IsDigits ds ∧
      rest.takeWhile Char.isDigit = [] := by
  rcases h with hdigit | ⟨hsign, hnext⟩
  · refine ⟨[], c :: cs.takeWhile Char.isDigit, cs.dropWhile Char.isDigit, ?_, .inl rfl, ?_,
      takeWhile_dropWhile_self _ _⟩
    · simp [List.takeWhile_append_dropWhile]
    · refine ⟨by simp, fun d hd => ?_⟩
      rcases List.mem_cons.1 hd with rfl | hd
      · exact hdigit
      · exact List.mem_takeWhile_imp hd
  · refine ⟨[c], cs.takeWhile Char.isDigit, cs.dropWhile Char.isDigit, ?_, ?_, ⟨?_, ?_⟩,
      takeWhile_dropWhile_self _ _⟩
    · simp [List.takeWhile_append_dropWhile]
    · rcases isSign_iff.1 hsign with rfl | rfl
      · exact .inr (.inl rfl)
      · exact .inr (.inr rfl)
    · rcases cs with _ | ⟨d, cs⟩
      · simp [optional] at hnext
      · have hd : d.isDigit := by simpa [optional] using hnext
        simp [hd]
    · exact fun _ => List.mem_takeWhile_imp

/-- What is read as a name is a word. -/
lemma startsWithWord_of_identifier {c : Char} {cs : List Char} {n : Nat} {k : Token.Kind}
    (hc : isNameStart c) (h : identifier (c :: cs) = ⟨n, .ok k⟩) :
    StartsWithWord (c :: cs) n k := by
  have hpart := List.takeWhile_cons_of_pos (l := cs) (isNamePart_of_isNameStart hc)
  obtain ⟨hlength, hverdict⟩ := Reading.mk.inj h
  refine ⟨(c :: cs).takeWhile isNamePart, (c :: cs).dropWhile isNamePart, ?_, hlength, ?_⟩
  · exact List.takeWhile_append_dropWhile.symm
  · rw [hpart, ← Except.ok.inj hverdict]
    exact .identifier hc fun x => List.mem_takeWhile_imp

/-- What is read as a number is a word, with or without a point. -/
lemma startsWithWord_of_number {c : Char} {cs : List Char} {n : Nat} {k : Token.Kind}
    (hc : StartsNumber c cs) (h : number (c :: cs) = ⟨n, .ok k⟩) :
    StartsWithWord (c :: cs) n k := by
  obtain ⟨s, ds, rest, hshape, hs, hd, hrest⟩ := exists_number_prefix hc
  rw [hshape, number_append hs hd hrest] at h
  obtain ⟨hlength, hkind⟩ := Reading.mk.inj h
  rcases fraction_eq_zero_or rest with hzero | ⟨fs, rest', rfl, hf, hpart⟩
  · rw [hzero, if_pos rfl, Except.ok.injEq] at hkind
    refine ⟨s ++ ds, rest, by rw [hshape, List.append_assoc], ?_, ?_⟩
    · rw [← hlength, hzero, List.length_append, Nat.add_zero]
    · exact hkind ▸ .integer hs hd
  · rw [hpart, if_neg (by omega), Except.ok.injEq] at hkind
    refine ⟨s ++ ds ++ '.' :: fs, rest', by rw [hshape]; simp, ?_, hkind ▸ .decimal hs hd hf⟩
    rw [← hlength, hpart]
    simp only [List.length_append, List.length_cons]
    omega

/-- A reading that succeeds behind something has succeeded there. -/
lemma after_eq_ok_iff {α : Type} {m n : Nat} {r : Reading α} {a : α} :
    r.after m = ⟨n, .ok a⟩ ↔ ∃ n', r = ⟨n', .ok a⟩ ∧ n = m + n' := by
  constructor
  · intro h
    obtain ⟨hlength, hverdict⟩ := Reading.mk.inj h
    exact ⟨r.length, by rw [← hverdict], hlength.symm⟩
  · rintro ⟨n', rfl, rfl⟩
    rfl

lemma eq_of_closingQuote {cs : List Char} {n : Nat} {k : Token.Kind}
    (h : closingQuote cs = ⟨n, .ok k⟩) :
    ∃ rest, cs = '\'' :: rest ∧ n = 1 ∧ k = .character := by
  unfold closingQuote at h
  split at h
  · next c rest =>
    split at h
    · next hc =>
      obtain ⟨hlength, hverdict⟩ := Reading.mk.inj h
      exact ⟨rest, by rw [hc], hlength.symm, (Except.ok.inj hverdict).symm⟩
    · split at h <;> simp at h
  · simp at h

/-- A character literal that is read has one unit. -/
lemma unit_of_characterBody {cs : List Char} {n : Nat} {k : Token.Kind}
    (h : characterBody cs = ⟨n, .ok k⟩) :
    ∃ u rest, cs = u ++ '\'' :: rest ∧ QuotedUnit '\'' u ∧ n = u.length + 1 ∧
      k = .character := by
  unfold characterBody at h
  split at h
  · simp at h
  next hquote =>
  unfold characterUnit at h
  split at h
  · simp at h
  next c tail =>
  split at h
  · next hslash =>
    split at h
    · simp at h
    · next letter tail =>
      split at h
      · next hletter =>
        obtain ⟨n', hclose, rfl⟩ := after_eq_ok_iff.1 h
        obtain ⟨rest, rfl, rfl, rfl⟩ := eq_of_closingQuote hclose
        exact ⟨['\\', letter], rest, by simp [hslash], .escape (isEscapeLetter_iff.1 hletter),
          rfl, rfl⟩
      · simp at h
  · next hslash =>
    split at h
    · simp at h
    · next hend =>
      obtain ⟨n', hclose, rfl⟩ := after_eq_ok_iff.1 h
      obtain ⟨rest, rfl, rfl, rfl⟩ := eq_of_closingQuote hclose
      simp only [isLineEnd_iff, not_or] at hend
      have hc : c ≠ '\'' := fun hc => hquote _ (by rw [hc])
      exact ⟨[c], rest, rfl, .raw hc hslash hend.1 hend.2, rfl, rfl⟩

/-- A string literal that is read has units up to its closing quote, by induction along the
recogniser. -/
lemma units_of_stringUnits {cs : List Char} {n : Nat} {k : Token.Kind}
    (h : stringUnits cs = ⟨n, .ok k⟩) :
    ∃ us rest, cs = us ++ '"' :: rest ∧ QuotedUnits '"' us ∧ n = us.length + 1 ∧
      k = .string := by
  induction cs using stringUnits.induct generalizing n with
  | case1 => simp [stringUnits] at h
  | case2 => simp [stringUnits] at h
  | case3 letter rest hletter ih =>
    rw [stringUnits_escape hletter] at h
    obtain ⟨n', htail, rfl⟩ := after_eq_ok_iff.1 h
    obtain ⟨us, rest', rfl, hus, rfl, rfl⟩ := ih htail
    exact ⟨['\\', letter] ++ us, rest', rfl, .cons (.escape (isEscapeLetter_iff.1 hletter)) hus,
      by simp only [List.length_append, List.length_cons, List.length_nil]; omega, rfl⟩
  | case4 letter rest hletter => simp [stringUnits, hletter] at h
  | case5 rest hslash =>
    rw [stringUnits_quote] at h
    obtain ⟨hlength, hverdict⟩ := Reading.mk.inj h
    exact ⟨[], rest, rfl, .nil, hlength.symm, (Except.ok.inj hverdict).symm⟩
  | case6 c rest hslash hquote hend =>
    rw [stringUnits.eq_def] at h
    simp [hslash, hquote, hend] at h
  | case7 c rest hslash hquote hend ih =>
    rw [stringUnits_raw hslash hquote hend] at h
    obtain ⟨n', htail, rfl⟩ := after_eq_ok_iff.1 h
    obtain ⟨us, rest', rfl, hus, rfl, rfl⟩ := ih htail
    simp only [isLineEnd_iff, not_or] at hend
    exact ⟨[c] ++ us, rest', rfl, .cons (.raw hquote hslash hend.1 hend.2) hus,
      by simp only [List.length_append, List.length_cons, List.length_nil]; omega, rfl⟩

lemma startsWithWord_of_character {cs : List Char} {n : Nat} {k : Token.Kind}
    (h : character ('\'' :: cs) = ⟨n, .ok k⟩) : StartsWithWord ('\'' :: cs) n k := by
  have hbody : character ('\'' :: cs) = (characterBody cs).after 1 := rfl
  obtain ⟨n', hn', rfl⟩ := after_eq_ok_iff.1 (hbody ▸ h)
  obtain ⟨u, rest, rfl, hu, rfl, rfl⟩ := unit_of_characterBody hn'
  refine ⟨'\'' :: (u ++ ['\'']), rest, by simp, ?_, .character hu⟩
  simp only [List.length_cons, List.length_append, List.length_nil]
  omega

lemma startsWithWord_of_string {cs : List Char} {n : Nat} {k : Token.Kind}
    (h : string ('"' :: cs) = ⟨n, .ok k⟩) : StartsWithWord ('"' :: cs) n k := by
  have hbody : string ('"' :: cs) = (stringBody cs).after 1 := rfl
  obtain ⟨n', hn', rfl⟩ := after_eq_ok_iff.1 (hbody ▸ h)
  unfold stringBody at hn'
  split at hn'
  · simp at hn'
  · obtain ⟨us, rest, rfl, hus, rfl, rfl⟩ := units_of_stringUnits hn'
    refine ⟨'"' :: (us ++ ['"']), rest, by simp, ?_, .string hus⟩
    simp only [List.length_cons, List.length_append, List.length_nil]
    omega

/-- Any other character is an operator, possibly with an equals sign. -/
lemma startsWithWord_of_operator {c : Char} {cs : List Char} {n : Nat} {k : Token.Kind}
    (hname : ¬ isNameStart c) (hdigit : ¬ c.isDigit) (hsingle : c ≠ '\'') (hdouble : c ≠ '"')
    (h : operator (c :: cs) = ⟨n, .ok k⟩) : StartsWithWord (c :: cs) n k := by
  obtain ⟨hlength, hverdict⟩ := Reading.mk.inj h
  by_cases hpair : ∃ rest, isComparison c ∧ cs = '=' :: rest
  · obtain ⟨rest, hc, rfl⟩ := hpair
    refine ⟨[c, '='], rest, rfl, ?_, Except.ok.inj hverdict ▸ .comparison ?_⟩
    · rw [← hlength, if_pos hc]
      rfl
    · exact isComparison_iff.1 hc
  · refine ⟨[c], cs, rfl, ?_, Except.ok.inj hverdict ▸ .single hsingle hdouble hname hdigit⟩
    rw [← hlength, List.length_singleton]
    by_cases hc : isComparison c
    · have hnext : optional (· = '=') cs = 0 := by
        rcases cs with _ | ⟨d, rest⟩
        · rfl
        · exact if_neg fun hd => hpair ⟨rest, hc, by rw [of_decide_eq_true hd]⟩
      rw [if_pos hc, hnext]
    · rw [if_neg hc]

/-- A reading that succeeds where the text has not ended reads a word. -/
theorem startsWithWord_of_token {cs : List Char} {n : Nat} {k : Token.Kind} (hne : cs ≠ [])
    (h : token cs = ⟨n, .ok k⟩) : StartsWithWord cs n k := by
  obtain ⟨c, cs, rfl⟩ := List.exists_cons_of_ne_nil hne
  by_cases hname : isNameStart c
  · exact startsWithWord_of_identifier hname (token_of_isNameStart hname cs ▸ h)
  by_cases hnumber : StartsNumber c cs
  · exact startsWithWord_of_number hnumber (token_of_startsNumber hnumber ▸ h)
  by_cases hsingle : c = '\''
  · subst hsingle
    exact startsWithWord_of_character (token_singleQuote cs ▸ h)
  by_cases hdouble : c = '"'
  · subst hdouble
    exact startsWithWord_of_string (token_doubleQuote cs ▸ h)
  · have hdigit : ¬ c.isDigit := fun hd => hnumber (.inl hd)
    exact startsWithWord_of_operator hname hdigit hsingle hdouble
      (token_of_other hname hnumber hsingle hdouble ▸ h)

end LetDef.Lexeme
