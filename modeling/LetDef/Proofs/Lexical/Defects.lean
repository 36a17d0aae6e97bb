import LetDef.Proofs.Lexical.Calls
import LetDef.Proofs.Lexical.Lines

/-!
# What refuses a text

Names, numbers and operators never refuse a text: where none of the three is found, an operator of
one character is.  So a text is refused because of a literal between quotes, and this module lists
the ways in which one can fail.  `Defect cs cause n` says, without a recogniser, that the characters
`cs` begin with a quote that makes no literal, and that the cause is noticed `n` characters later.

The list is complete because units come to a stop: any characters are some units, followed by the
quote, by the end of the line or by a backslash that begins no escape (`units_then_stop`).  The
recognisers say one thing in each of these cases, and `Lexeme.token_eq_error_iff` reads off when
they refuse.  `tokenize_eq_error_iff` says the same of a whole text, whose defect stands where some
token would have to start.
-/

namespace LetDef

/-! ## Where units stop -/

/-- No character of this line is left. -/
def EndsLine (cs : List Char) : Prop :=
  ∀ c ∈ cs.head?, c = '\n' ∨ c = '\r'

/-- A backslash before these characters begins no escape. -/
def NoEscape (cs : List Char) : Prop :=
  ∀ c ∈ cs.head?, c ∉ escapeLetters

/-- Characters that begin with no unit. -/
inductive UnitStop (quote : Char) : List Char → Prop where
  | quote (rest : List Char) : UnitStop quote (quote :: rest)
  | lineEnd {cs : List Char} : EndsLine cs → UnitStop quote cs
  | noEscape {rest : List Char} : NoEscape rest → UnitStop quote ('\\' :: rest)

lemma unit_or_stop (quote : Char) (cs : List Char) :
    (∃ u rest, cs = u ++ rest ∧ QuotedUnit quote u) ∨ UnitStop quote cs := by
  rcases cs with _ | ⟨c, rest⟩
  · exact .inr (.lineEnd (by simp [EndsLine]))
  by_cases hquote : c = quote
  · subst hquote
    exact .inr (.quote rest)
  by_cases hslash : c = '\\'
  · subst hslash
    by_cases hescape : NoEscape rest
    · exact .inr (.noEscape hescape)
    · simp only [NoEscape, not_forall, not_not] at hescape
      obtain ⟨letter, hhead, hletter⟩ := hescape
      obtain ⟨rest, rfl⟩ := List.head?_eq_some_iff.1 hhead
      exact .inl ⟨['\\', letter], rest, rfl, .escape hletter⟩
  by_cases hend : c = '\n' ∨ c = '\r'
  · exact .inr (.lineEnd (by simpa [EndsLine] using hend))
  · rw [not_or] at hend
    exact .inl ⟨[c], rest, rfl, .raw hquote hslash hend.1 hend.2⟩

lemma QuotedUnit.length_pos {quote : Char} {u : List Char} (hu : QuotedUnit quote u) :
    0 < u.length := by
  cases hu <;> simp

/-- Any characters are some units, and then none. -/
theorem units_then_stop (quote : Char) (cs : List Char) :
    ∃ us rest, cs = us ++ rest ∧ QuotedUnits quote us ∧ UnitStop quote rest := by
  rcases unit_or_stop quote cs with ⟨u, rest, hcs, hu⟩ | hstop
  · have hlt : rest.length < cs.length := by
      have hpos := hu.length_pos
      rw [hcs, List.length_append]
      omega
    obtain ⟨us, rest, rfl, hus, hstop⟩ := units_then_stop quote rest
    exact ⟨u ++ us, rest, by rw [hcs, List.append_assoc], .cons hu hus, hstop⟩
  · exact ⟨[], cs, rfl, .nil, hstop⟩
termination_by cs.length

/-! ## Defects -/

/-- How many characters are read where the closing quote of a character literal is missing: the one
in its place, unless the line ends there. -/
def strayLength : List Char → Nat
  | [] => 0
  | c :: _ => if c = '\n' ∨ c = '\r' then 0 else 1

/-- The characters begin with a quote that makes no literal.  The cause is noticed so many
characters after the beginning. -/
inductive Defect : List Char → Cause → Nat → Prop where
  | illegalSingleQuote {rest : List Char} :
      Defect ('\'' :: '\'' :: '\'' :: rest) .illegalSingleQuote 3
  | missingCharacter {rest : List Char} : rest.head? ≠ some '\'' →
      Defect ('\'' :: '\'' :: rest) .missingCharacter 2
  | noCharacter {rest : List Char} : EndsLine rest →
      Defect ('\'' :: rest) .unterminatedCharacter 1
  | unclosedCharacter {u rest : List Char} : QuotedUnit '\'' u → rest.head? ≠ some '\'' →
      Defect ('\'' :: (u ++ rest)) .unterminatedCharacter (1 + u.length + strayLength rest)
  | doubleQuoteInString {rest : List Char} :
      Defect ('"' :: '"' :: '"' :: rest) .doubleQuoteInString 3
  | unterminatedString {us rest : List Char} : QuotedUnits '"' us → EndsLine rest →
      Defect ('"' :: (us ++ rest)) .unterminatedString (1 + us.length)
  | characterEscape {rest : List Char} : NoEscape rest →
      Defect ('\'' :: '\\' :: rest) .invalidEscape 2
  | stringEscape {us rest : List Char} : QuotedUnits '"' us → NoEscape rest →
      Defect ('"' :: (us ++ '\\' :: rest)) .invalidEscape (1 + us.length + 1)

namespace Lexeme

variable {cs rest u us : List Char} {n : Nat} {cause : Cause}

/-! ## What recognisers say where units stop -/

lemma isLineEnd_of_endsLine {c : Char} (h : EndsLine (c :: rest)) : isLineEnd c :=
  isLineEnd_iff.2 (h c rfl)

lemma head?_ne_of_endsLine {c : Char} (h : EndsLine cs) (hc : ¬ isLineEnd c) :
    cs.head? ≠ some c :=
  fun hhead => hc (isLineEnd_iff.2 (h c hhead))

lemma closingQuote_of_head?_ne (h : rest.head? ≠ some '\'') :
    closingQuote rest = ⟨strayLength rest, .error .unterminatedCharacter⟩ := by
  rcases rest with _ | ⟨c, rest⟩
  · rfl
  · have hc : c ≠ '\'' := by simpa using h
    by_cases hend : c = '\n' ∨ c = '\r'
    · simp [closingQuote, hc, strayLength, hend, isLineEnd_iff]
    · simp [closingQuote, hc, strayLength, hend, isLineEnd_iff]

lemma characterBody_of_endsLine (h : EndsLine rest) :
    characterBody rest = ⟨0, .error .unterminatedCharacter⟩ := by
  rw [characterBody_of_not_quote (head?_ne_of_endsLine h (by decide))]
  rcases rest with _ | ⟨c, rest⟩
  · rfl
  · have hend := isLineEnd_of_endsLine h
    have hslash : c ≠ '\\' := ne_of_isBlank (isBlank_of_isLineEnd hend) (by decide)
    simp [characterUnit, hslash, hend]

lemma not_isEscapeLetter_of_noEscape {letter : Char} (h : NoEscape (letter :: rest)) :
    ¬ Quoted.isEscapeLetter letter :=
  fun hletter => h letter rfl (isEscapeLetter_iff.1 hletter)

lemma characterBody_of_noEscape (h : NoEscape rest) :
    characterBody ('\\' :: rest) = ⟨1, .error .invalidEscape⟩ := by
  rw [characterBody_of_not_quote (by simp)]
  rcases rest with _ | ⟨letter, rest⟩
  · rfl
  · simp [characterUnit, not_isEscapeLetter_of_noEscape h]

lemma stringUnits_of_endsLine (h : EndsLine rest) :
    stringUnits rest = ⟨0, .error .unterminatedString⟩ := by
  rcases rest with _ | ⟨c, rest⟩
  · rw [stringUnits]
  · exact stringUnits_lineEnd (isLineEnd_of_endsLine h) rest

lemma stringUnits_of_noEscape (h : NoEscape rest) :
    stringUnits ('\\' :: rest) = ⟨1, .error .invalidEscape⟩ := by
  rw [stringUnits.eq_def]
  rcases rest with _ | ⟨letter, rest⟩
  · simp
  · simp [not_isEscapeLetter_of_noEscape h]

/-- Neither an end of the line nor a backslash leaves room for two double quotes. -/
lemma stringBody_append_units (hus : QuotedUnits '"' us) (hrest : rest.head? ≠ some '"') :
    stringBody (us ++ rest) = (stringUnits rest).after us.length := by
  have hhead : (us ++ rest).head? ≠ some '"' := by
    rcases eq_or_ne us [] with rfl | hne
    · exact hrest
    · rw [List.head?_append_of_ne_nil _ hne]
      exact head?_units_ne_quote hus hne
  have hquotes : ¬ ['"', '"'] <+: us ++ rest := fun ⟨tail, htail⟩ => hhead (by rw [← htail]; rfl)
  rw [stringBody_of_not_quotes hquotes, stringUnits_append_units hus]

/-! ## Refusals are defects -/

lemma token_of_defect (h : Defect cs cause n) : token cs = ⟨n, .error cause⟩ := by
  have hcharacter (rest : List Char) :
      token ('\'' :: rest) = (characterBody rest).after 1 := token_singleQuote rest
  have hstring (rest : List Char) :
      token ('"' :: rest) = (stringBody rest).after 1 := token_doubleQuote rest
  cases h with
  | illegalSingleQuote => rfl
  | @missingCharacter rest hrest =>
    have hnone : optional (· = '\'') rest = 0 := by
      rcases rest with _ | ⟨c, rest⟩
      · rfl
      · exact if_neg (by simpa using hrest)
    rw [hcharacter, characterBody_quote, hnone]
    rfl
  | noCharacter hend => rw [hcharacter, characterBody_of_endsLine hend]; rfl
  | unclosedCharacter hu hrest =>
    rw [hcharacter, characterBody_append_unit hu, closingQuote_of_head?_ne hrest, Nat.add_assoc]
    rfl
  | doubleQuoteInString => rfl
  | unterminatedString hus hend =>
    rw [hstring, stringBody_append_units hus (head?_ne_of_endsLine hend (by decide)),
      stringUnits_of_endsLine hend]
    rfl
  | characterEscape hescape => rw [hcharacter, characterBody_of_noEscape hescape]; rfl
  | stringEscape hus hescape =>
    rw [hstring, stringBody_append_units hus (by simp), stringUnits_of_noEscape hescape,
      Nat.add_assoc]
    rfl

/-- No other defect stands where a token is refused. -/
lemma eq_of_defect {cause' : Cause} {n' : Nat} (h : token cs = ⟨n, .error cause⟩)
    (hdefect : Defect cs cause' n') : cause' = cause ∧ n' = n := by
  obtain ⟨rfl, hcause⟩ := Reading.mk.inj (h.symm.trans (token_of_defect hdefect))
  exact ⟨(Except.error.inj hcause).symm, rfl⟩

/-- Where a quote is ahead, a literal is recognised or there is a defect. -/
lemma ok_or_defect_singleQuote (rest : List Char) :
    (∃ n kind, token ('\'' :: rest) = ⟨n, .ok kind⟩) ∨
      ∃ cause n, Defect ('\'' :: rest) cause n := by
  rcases unit_or_stop '\'' rest with ⟨u, rest, rfl, hu⟩ | hstop
  · by_cases hrest : rest.head? = some '\''
    · obtain ⟨rest, rfl⟩ := List.head?_eq_some_iff.1 hrest
      exact .inl ⟨_, _, (token_singleQuote _).trans (character_append hu rest)⟩
    · exact .inr ⟨_, _, .unclosedCharacter hu hrest⟩
  · right
    cases hstop with
    | quote rest =>
      by_cases hrest : rest.head? = some '\''
      · obtain ⟨rest, rfl⟩ := List.head?_eq_some_iff.1 hrest
        exact ⟨_, _, .illegalSingleQuote⟩
      · exact ⟨_, _, .missingCharacter hrest⟩
    | lineEnd hend => exact ⟨_, _, .noCharacter hend⟩
    | noEscape hescape => exact ⟨_, _, .characterEscape hescape⟩

lemma ok_or_defect_doubleQuote (rest : List Char) :
    (∃ n kind, token ('"' :: rest) = ⟨n, .ok kind⟩) ∨
      ∃ cause n, Defect ('"' :: rest) cause n := by
  -- Three quotes come first, since the first two of them alone would be an empty string.
  by_cases htriple : tripleQuote <+: '"' :: rest
  · obtain ⟨tail, htail⟩ := htriple
    rw [← htail]
    exact .inr ⟨_, _, .doubleQuoteInString⟩
  obtain ⟨us, rest, rfl, hus, hstop⟩ := units_then_stop '"' rest
  cases hstop with
  | quote rest => exact .inl ⟨_, _, (token_doubleQuote _).trans (string_append hus htriple)⟩
  | lineEnd hend => exact .inr ⟨_, _, .unterminatedString hus hend⟩
  | noEscape hescape => exact .inr ⟨_, _, .stringEscape hus hescape⟩

/-- A text that has not ended is refused exactly for its defects. -/
theorem token_eq_error_iff (hne : cs ≠ []) : token cs = ⟨n, .error cause⟩ ↔ Defect cs cause n := by
  refine ⟨fun h => ?_, token_of_defect⟩
  have hdefect : ∃ cause n, Defect cs cause n := by
    obtain ⟨c, rest, rfl⟩ := List.exists_cons_of_ne_nil hne
    by_cases hname : isNameStart c
    · rw [token_of_isNameStart hname] at h
      simp [identifier] at h
    by_cases hnumber : StartsNumber c rest
    · rw [token_of_startsNumber hnumber] at h
      simp [number] at h
    by_cases hsingle : c = '\''
    · subst hsingle
      exact (ok_or_defect_singleQuote rest).resolve_left (by simp [h])
    by_cases hdouble : c = '"'
    · subst hdouble
      exact (ok_or_defect_doubleQuote rest).resolve_left (by simp [h])
    · rw [token_of_other hname hnumber hsingle hdouble] at h
      simp [operator] at h
  obtain ⟨cause', n', hdefect⟩ := hdefect
  obtain ⟨rfl, rfl⟩ := eq_of_defect h hdefect
  exact hdefect

end Lexeme

/-! ## Refused texts -/

namespace Tokenizer

variable {t t' : Tokenizer} {ts : List Token} {start : Nat} {cs : List Char} {fault : Fault}

/-- Some token of the text is to start at the index: those before it have been given, and the blanks
after them are skipped. -/
def StartsToken (text : String) (s : Nat) : Prop :=
  ∃ ts t, Run (ofString text) ts t ∧ t.reader.skipBlanks.index = s

lemma Run.leadsTo (h : Run t ts t') : t.reader.LeadsTo t'.reader := by
  induction h with
  | done => exact .here
  | @step t t₁ t' token ts hnext _ ih =>
    have hleads : t.reader.LeadsTo t.next.2.reader := leadsTo_perform t .next
    rw [hnext] at hleads
    exact hleads.trans ih

/-- Between two tokens nothing is held. -/
lemma Run.fresh (h : Run (fresh start cs) ts t') : ∃ start' cs', t' = fresh start' cs' := by
  generalize ht : Tokenizer.fresh start cs = t at h
  induction h generalizing start cs with
  | done => exact ⟨start, cs, ht.symm⟩
  | step hnext _ ih =>
    subst ht
    rcases next_fresh_cases start cs with ⟨-, hnone⟩ | ⟨fault, t', herror⟩ | hword
    · rw [hnext] at hnone
      cases hnone
    · rw [hnext] at herror
      cases herror
    · obtain ⟨_, rest, token, -, -, -, -, -, -, hok⟩ := hword
      obtain ⟨-, rfl⟩ := Prod.mk.inj (hnext.symm.trans hok)
      exact ih rfl

lemma Run.tokens_eq_error (h : Run t ts t') (hnext : t'.next.1 = some (.error fault)) :
    t.tokens = .error fault := by
  induction h with
  | @done t =>
    have hpair : t.next = (some (.error fault), t.next.2) := by rw [← hnext]
    exact tokens_of_next_error hpair
  | step hstep _ ih => rw [tokens_of_next_ok hstep, ih hnext]; rfl

/-- The next token is refused exactly for the defect that stands after the blanks. -/
lemma next_fresh_error_iff :
    (fresh start cs).next.1 = some (.error fault) ↔
      ∃ n, Defect (fresh start cs).reader.skipBlanks.ahead fault.cause n ∧
        fault.offset = (fresh start cs).reader.skipBlanks.index + n := by
  rcases blank_or_exists_gap cs with hblank | ⟨gap, cs, rfl, hgap, hne, hcs⟩
  · have hskip : (fresh start (cs ++ [])).reader.skipBlanks = ⟨start + cs.length, [], []⟩ :=
      skipBlanks_append hblank rfl
    rw [List.append_nil] at hskip
    rw [next_fresh_blank hblank, hskip]
    constructor
    · intro h
      cases h
    · rintro ⟨n, hdefect, -⟩
      cases hdefect
  · have hskip : (fresh start (gap ++ cs)).reader.skipBlanks = ⟨start + gap.length, [], cs⟩ :=
      skipBlanks_append hgap hcs
    rw [hskip]
    rcases htoken : Lexeme.token cs with ⟨n, cause | kind⟩
    · obtain ⟨r, hscan⟩ := Reader.scan_of_refused htoken (start + gap.length)
      rw [next_fresh_of_scan_error hgap hcs hne hscan]
      constructor
      · intro h
        obtain rfl : _ = fault := by simpa using h
        exact ⟨n, (Lexeme.token_eq_error_iff hne).1 htoken, rfl⟩
      · rintro ⟨n', hdefect, hoffset⟩
        obtain ⟨rfl, rfl⟩ := Lexeme.eq_of_defect htoken hdefect
        exact congrArg (some ∘ Except.error) (congrArg (Fault.mk fault.cause) hoffset.symm)
    · have hscan : (⟨start + gap.length, [], cs⟩ : Reader).scan Lexeme.token = (.ok _, _) :=
        Reader.scan_eq_ok_iff.2 ⟨n, kind, htoken, Reader.cut_advanceBy _ _ _ _⟩
      rw [next_fresh_of_scan_ok hgap hcs hne hscan]
      constructor
      · intro h
        simp at h
      · rintro ⟨n', hdefect, -⟩
        rw [Lexeme.token_of_defect hdefect] at htoken
        simp at htoken

end Tokenizer

open Tokenizer in
/-- A text is refused exactly if a defect stands where some token is to start.  The cause is that of
the defect, and the place is where the defect is noticed. -/
theorem tokenize_eq_error_iff (text : String) (fault : Fault) :
    tokenize text = .error fault ↔ ∃ s n, StartsToken text s ∧
      Defect (text.toList.drop s) fault.cause n ∧ fault.offset = s + n := by
  have hplace {ts : List Token} {t : Tokenizer} (hrun : Run (ofString text) ts t) :
      t.next.1 = some (.error fault) ↔
        ∃ n, Defect (text.toList.drop t.reader.skipBlanks.index) fault.cause n ∧
          fault.offset = t.reader.skipBlanks.index + n := by
    have hwithin := (hrun.leadsTo.within (Reader.in_ofList text.toList)).skipBlanks
    obtain ⟨start, cs, rfl⟩ := hrun.fresh
    rw [next_fresh_error_iff, hwithin.ahead_eq]
  constructor
  · intro h
    obtain ⟨ts, t, hrun, -, ⟨-, hok⟩ | ⟨fault', hnext, herror⟩⟩ := exists_run (ofString text)
    · exact absurd (h.symm.trans hok) (by simp)
    · obtain rfl := Except.error.inj (h.symm.trans herror)
      obtain ⟨n, hdefect, hoffset⟩ := (hplace hrun).1 hnext
      exact ⟨_, n, ⟨ts, t, hrun, rfl⟩, hdefect, hoffset⟩
  · rintro ⟨_, n, ⟨ts, t, hrun, rfl⟩, hdefect, hoffset⟩
    exact hrun.tokens_eq_error ((hplace hrun).2 ⟨n, hdefect, hoffset⟩)

/-- The end of the line cuts off the escape before it cuts off the string. -/
example : tokenize "s \"a\\\n\"" = .error ⟨.invalidEscape, 5⟩ := by
  cbv

end LetDef
