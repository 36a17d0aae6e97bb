import LetDef.Proofs.Lexical.Partition

/-!
# Words with blanks between them

Whether a word runs on over its end depends on what follows, so it is the blanks that make any words
in any order a text of exactly those words: `a` and `-5` would be one word without them.  A word
with a blank or nothing after it is cut off as it is (`Cuts.word`), and the rest is induction.

Two kinds of texts are made of words in this way.

* In a text of words with one space between any two of them, the words are cut out
  (`tokenize_words`).
* The tokens of a text may be spread over another text, with other blanks around them.  They are cut
  out with their kinds, at the places where they have been put (`tokenize_spread`).
-/

namespace LetDef

/-! ## Words -/

/-- The text is a word of some kind and starts with no blank. -/
structure IsWord (w : String) : Prop where
  spelling : ∃ k, Spelling k w.toList
  starts : ∀ c ∈ w.toList.head?, ¬ isBlank c

/-- Single characters apart, no word starts with a blank. -/
lemma isWord_of_spelling {k : Token.Kind} {w : String} (h : Spelling k w.toList)
    (hk : k ≠ .operator) : IsWord w := by
  refine ⟨⟨k, h⟩, ?_⟩
  generalize w.toList = cs at h
  have hdigit : ∀ d, isBlank d → ¬ d.isDigit := Lexeme.not_of_isBlank (by decide)
  have hname : ∀ d, isBlank d → ¬ isNameStart d := Lexeme.not_of_isBlank (by decide)
  have hnumber : ∀ {s ds tail : List Char}, IsSignPart s → IsDigits ds →
      ∀ c ∈ (s ++ (ds ++ tail)).head?, ¬ isBlank c := by
    intro s ds tail hs hds c hc hblank
    obtain ⟨d, ds, rfl⟩ := List.exists_cons_of_ne_nil hds.1
    rcases hs with rfl | rfl | rfl
    · obtain rfl := Option.some.inj hc
      exact hdigit _ hblank (hds.2 _ List.mem_cons_self)
    · obtain rfl := Option.some.inj hc
      exact absurd hblank (by decide)
    · obtain rfl := Option.some.inj hc
      exact absurd hblank (by decide)
  intro c hc hblank
  cases h with
  | identifier hstart _ =>
    obtain rfl := Option.some.inj hc
    exact hname _ hblank hstart
  | @integer s ds hs hds =>
    rw [← List.append_nil ds] at hc
    exact hnumber hs hds c hc hblank
  | decimal hs hds _ =>
    rw [List.append_assoc] at hc
    exact hnumber hs hds c hc hblank
  | character _ =>
    obtain rfl := Option.some.inj hc
    exact absurd hblank (by decide)
  | string _ =>
    obtain rfl := Option.some.inj hc
    exact absurd hblank (by decide)
  | comparison _ => exact hk rfl
  | single _ _ _ _ => exact hk rfl

/-- Whether a text is read as a whole and starts with no blank. -/
def isWholeToken (cs : List Char) : Bool :=
  cs.head?.any (fun c => !isBlank c) &&
    match Lexeme.token cs with
    | ⟨n, .ok _⟩ => n == cs.length
    | ⟨_, .error _⟩ => false

lemma isWord_of_isWholeToken {w : String} (h : isWholeToken w.toList) : IsWord w := by
  obtain ⟨hstart, hread⟩ := (Bool.and_eq_true _ _).mp h
  rcases hw : w.toList with _ | ⟨c, cs⟩
  · rw [hw] at hstart
    exact absurd hstart (by decide)
  rw [hw] at hstart hread
  have hblank : ¬ isBlank c := by simpa using hstart
  split at hread
  · next n k htoken =>
    obtain ⟨hlongest, -⟩ := Lexeme.longest_of_token (List.cons_ne_nil c cs) htoken
    rw [eq_of_beq hread, List.take_length] at hlongest
    refine ⟨⟨k, hw ▸ hlongest.spelling⟩, ?_⟩
    rw [hw]
    simpa using hblank
  · exact absurd hread (by decide)

/-- A word is cut off where the text ends after it or goes on with a blank. -/
lemma Cuts.word {start : Nat} {gap rest : List Char} {k : Token.Kind} {w : String}
    {ts : List Token} (hgap : ∀ c ∈ gap, isBlank c) (hw : Spelling k w.toList)
    (hstarts : ∀ c ∈ w.toList.head?, ¬ isBlank c) (hends : Lexeme.EndsWord rest)
    (hrest : Cuts (start + gap.length + w.length) rest ts) :
    Cuts start (gap ++ (w.toList ++ rest)) (⟨k, w, start + gap.length⟩ :: ts) := by
  have hread := Lexeme.token_append_of_endsWord hw hends
  have hne := List.append_ne_nil_of_left_ne_nil (Lexeme.ne_nil_of_spelling hw) rest
  obtain ⟨hlongest, -⟩ := Lexeme.longest_of_token hne hread
  rw [List.take_left] at hlongest
  let token : Token := ⟨k, w, start + gap.length⟩
  exact @Cuts.token start gap rest token ts hgap hstarts hlongest
    (Lexeme.not_tripleQuote_of_token hread) rfl hrest

/-! ## Single spaces -/

/-- What stands after the first of some words ends it, and is the other words after a blank. -/
lemma exists_gap_of_intercalate (w : List Char) (ws : List (List Char)) :
    ∃ gap, (∀ c ∈ gap, isBlank c) ∧
      [' '].intercalate (w :: ws) = w ++ (gap ++ [' '].intercalate ws) ∧
      Lexeme.EndsWord (gap ++ [' '].intercalate ws) := by
  rcases ws with _ | ⟨v, ws⟩
  · refine ⟨[], by simp, by simp, ?_⟩
    simp [Lexeme.EndsWord]
  · refine ⟨[' '], by simp [isBlank], by simp, ?_⟩
    intro c hc
    obtain rfl := Option.some.inj hc
    decide

lemma cuts_words {ws : List String} (h : ∀ w ∈ ws, IsWord w) (start : Nat) {gap : List Char}
    (hgap : ∀ c ∈ gap, isBlank c) :
    ∃ ts, Cuts start (gap ++ [' '].intercalate (ws.map String.toList)) ts ∧
      ts.map Token.literal = ws := by
  induction ws generalizing start gap with
  | nil => exact ⟨[], by simpa using Cuts.blank hgap, rfl⟩
  | cons w ws ih =>
    obtain ⟨hw, hws⟩ := List.forall_mem_cons.1 h
    obtain ⟨k, hspelling⟩ := hw.spelling
    obtain ⟨gap', hgap', hjoined, hends⟩ :=
      exists_gap_of_intercalate w.toList (ws.map String.toList)
    obtain ⟨ts, hcuts, hliterals⟩ := ih hws (start + gap.length + w.length) hgap'
    refine ⟨⟨k, w, start + gap.length⟩ :: ts, ?_, by rw [List.map_cons, hliterals]⟩
    rw [List.map_cons, hjoined]
    exact .word hgap hspelling hw.starts hends hcuts

/-- The tokens of a text of words with spaces between them are those words. -/
theorem tokenize_words {ws : List String} (h : ∀ w ∈ ws, IsWord w) :
    ∃ ts, tokenize (" ".intercalate ws) = .ok ts ∧ ts.map Token.literal = ws := by
  obtain ⟨ts, hcuts, hliterals⟩ := cuts_words h 0 (List.forall_mem_nil _)
  refine ⟨ts, Tokenizer.tokens_eq_ok_iff.2 ?_, hliterals⟩
  rw [String.toList_intercalate]
  exact hcuts

/-! ## Any blanks -/

/-- Some blanks, and then the literals of the tokens, each with blanks after it. -/
def spread (gap : List Char) (ts : List Token) (gaps : List (List Char)) : List Char :=
  gap ++ (List.zipWith (fun t g => t.literal.toList ++ g) ts gaps).flatten

lemma spread_cons (gap g : List Char) (t : Token) (ts : List Token) (gaps : List (List Char)) :
    spread gap (t :: ts) (g :: gaps) = gap ++ (t.literal.toList ++ spread g ts gaps) := by
  simp [spread]

/-- Both lists have equally many tokens, and those with the same number are the same word. -/
structure SameWords (ts us : List Token) : Prop where
  length_eq : us.length = ts.length
  word_eq : ∀ {k : Nat} {t u : Token}, ts[k]? = some t → us[k]? = some u →
    u.kind = t.kind ∧ u.literal = t.literal

/-- The tokens `us` are the tokens `ts` at the places where they are put in a text that starts at
the index `start`. -/
structure Spread (start : Nat) (gap : List Char) (gaps : List (List Char)) (ts us : List Token) :
    Prop extends SameWords ts us where
  offset_eq : ∀ {k : Nat} {u : Token}, us[k]? = some u →
    u.offset = start + (spread gap (ts.take k) (gaps.take k)).length

lemma Spread.nil (start : Nat) (gap : List Char) : Spread start gap [] [] [] where
  length_eq := rfl
  word_eq := by simp
  offset_eq := by simp

lemma Spread.cons {start : Nat} {gap g : List Char} {gaps : List (List Char)} {t : Token}
    {ts us : List Token} (h : Spread (start + gap.length + t.literal.length) g gaps ts us) :
    Spread start gap (g :: gaps) (t :: ts) (⟨t.kind, t.literal, start + gap.length⟩ :: us) where
  length_eq := congrArg (· + 1) h.length_eq
  word_eq := by
    rintro (_ | k) t' u ht hu
    · obtain rfl := Option.some.inj ht
      obtain rfl := Option.some.inj hu
      exact ⟨rfl, rfl⟩
    · exact h.word_eq ht hu
  offset_eq := by
    rintro (_ | k) u hu
    · obtain rfl := Option.some.inj hu
      simp [spread]
    · rw [h.offset_eq hu, List.take_succ_cons, List.take_succ_cons, spread_cons]
      simp only [List.length_append, String.length_toList]
      omega

/-- What stands after the first of some spread tokens ends it, if those that stand between two
tokens are blanks indeed. -/
lemma endsWord_spread {g : List Char} {gaps : List (List Char)} {ts : List Token}
    (hlength : gaps.length = ts.length) (hg : ∀ c ∈ g, isBlank c)
    (hapart : ∀ g' ∈ (g :: gaps).dropLast, g' ≠ []) : Lexeme.EndsWord (spread g ts gaps) := by
  intro c hc
  rcases g with _ | ⟨d, g⟩
  -- Nothing stands after the word, so it is the last one.
  · obtain rfl : gaps = [] := by
      by_contra hne
      rw [List.dropLast_cons_of_ne_nil hne] at hapart
      exact hapart [] List.mem_cons_self rfl
    obtain rfl := List.length_eq_zero_iff.1 hlength.symm
    simp [spread] at hc
  · obtain rfl : d = c := by simpa [spread] using hc
    exact hg d List.mem_cons_self

/-- Words that are spread over a text are cut out of it. -/
lemma exists_cuts_spread {ts : List Token} (hspelled : ∀ t ∈ ts, t.WellSpelled)
    (hstarts : ∀ t ∈ ts, ∀ c ∈ t.literal.toList.head?, ¬ isBlank c) (start : Nat)
    {gap : List Char} {gaps : List (List Char)} (hlength : gaps.length = ts.length)
    (hgap : ∀ c ∈ gap, isBlank c) (hgaps : ∀ g ∈ gaps, ∀ c ∈ g, isBlank c)
    (hapart : ∀ g ∈ gaps.dropLast, g ≠ []) :
    ∃ us, Cuts start (spread gap ts gaps) us ∧ Spread start gap gaps ts us := by
  induction ts generalizing start gap gaps with
  | nil =>
    obtain rfl := List.length_eq_zero_iff.1 hlength
    exact ⟨[], by simpa [spread] using Cuts.blank hgap, .nil start gap⟩
  | cons t ts ih =>
    obtain ⟨g, gaps, rfl⟩ := List.exists_cons_of_length_eq_add_one hlength
    have hrest : gaps.length = ts.length := Nat.succ.inj hlength
    obtain ⟨ht, hts⟩ := List.forall_mem_cons.1 hspelled
    obtain ⟨hstart, hstarts⟩ := List.forall_mem_cons.1 hstarts
    obtain ⟨hg, hgaps⟩ := List.forall_mem_cons.1 hgaps
    have hapart' : ∀ g' ∈ gaps.dropLast, g' ≠ [] := by
      intro g' hg'
      have hne : gaps ≠ [] := by
        rintro rfl
        exact absurd hg' List.not_mem_nil
      exact hapart g' (by
        rw [List.dropLast_cons_of_ne_nil hne]
        exact List.mem_cons_of_mem g hg')
    obtain ⟨us, hcuts, hspread⟩ :=
      ih hts hstarts (start + gap.length + t.literal.length) hrest hg hgaps hapart'
    refine ⟨⟨t.kind, t.literal, start + gap.length⟩ :: us, ?_, hspread.cons⟩
    rw [spread_cons]
    exact .word hgap ht hstart (endsWord_spread hrest hg hapart) hcuts

section Texts

variable {text : String} {ts : List Token}

lemma head?_not_blank_of_tokenize (h : tokenize text = .ok ts) :
    ∀ t ∈ ts, ∀ c ∈ t.literal.toList.head?, ¬ isBlank c := by
  intro t ht c hc hblank
  obtain ⟨d, hd, hnot⟩ := (Tokenizer.tokens_eq_ok_iff.1 h).starts t ht
  obtain rfl : d = c := Option.some.inj (hd.symm.trans hc)
  exact hnot (isBlank_iff.1 hblank)

/-- The tokens of a text, spread over another one, are cut out of it again. -/
theorem tokenize_spread (h : tokenize text = .ok ts) {gap : List Char}
    {gaps : List (List Char)} (hlength : gaps.length = ts.length)
    (hgap : ∀ c ∈ gap, c ∈ blanks) (hgaps : ∀ g ∈ gaps, ∀ c ∈ g, c ∈ blanks)
    (hapart : ∀ g ∈ gaps.dropLast, g ≠ []) :
    ∃ us, tokenize (String.ofList (spread gap ts gaps)) = .ok us ∧ Spread 0 gap gaps ts us := by
  obtain ⟨us, hcuts, hspread⟩ :=
    exists_cuts_spread (wellSpelled_of_tokenize h) (head?_not_blank_of_tokenize h) 0 hlength
      (fun c hc => isBlank_iff.2 (hgap c hc)) (fun g hg c hc => isBlank_iff.2 (hgaps g hg c hc))
      hapart
  refine ⟨us, Tokenizer.tokens_eq_ok_iff.2 ?_, hspread⟩
  rwa [String.toList_ofList]

/-- A word that does not start with a blank is a text of one token. -/
lemma tokenize_of_spelling {k : Token.Kind} (h : Spelling k text.toList)
    (hstarts : ∀ c ∈ text.toList.head?, ¬ isBlank c) : tokenize text = .ok [⟨k, text, 0⟩] := by
  have hcuts : Cuts 0 ([] ++ (text.toList ++ [])) [⟨k, text, 0⟩] :=
    .word (List.forall_mem_nil _) h hstarts (by simp [Lexeme.EndsWord])
      (.blank (List.forall_mem_nil _))
  rw [List.nil_append, List.append_nil] at hcuts
  exact Tokenizer.tokens_eq_ok_iff.2 hcuts

/-- A token of a text is what its literal alone is cut into. -/
theorem tokenize_literal (h : tokenize text = .ok ts) :
    ∀ t ∈ ts, tokenize t.literal = .ok [⟨t.kind, t.literal, 0⟩] :=
  fun t ht => tokenize_of_spelling (wellSpelled_of_tokenize h t ht)
    (head?_not_blank_of_tokenize h t ht)

end Texts

end LetDef
