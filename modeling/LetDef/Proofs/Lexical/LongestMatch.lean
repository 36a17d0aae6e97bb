import LetDef.Proofs.Lexical.Place
import LetDef.Proofs.Lexical.Recognition

/-!
# Tokens are longest words

The two halves of the description of `Lexeme.token` meet here: what it reads is the longest word at
the front of the text, and where there is a longest word it reads it (`longest_of_token`,
`token_eq_of_longest`).  A text that starts with three double quotes is the one exception.

A word that a blank follows, or nothing at all, is read as it stands
(`token_append_of_endsWord`).  So what a word is does not depend on its neighbours once blanks
separate them, and no word has two kinds (`kind_unique`).
-/

namespace LetDef.Lexeme

variable {rest : List Char}

/-! ## Tokens are longest words -/

/-- A text that starts with three double quotes starts with no token. -/
lemma not_tripleQuote_of_token {cs : List Char} {n : Nat} {k : Token.Kind}
    (h : token cs = ⟨n, .ok k⟩) : ¬ tripleQuote <+: cs := by
  rintro ⟨rest, rfl⟩
  rw [token_tripleQuote] at h
  simp at h

/-- What is read is the longest word at the front of the text. -/
theorem longest_of_token {cs : List Char} {n : Nat} {k : Token.Kind} (hne : cs ≠ [])
    (h : token cs = ⟨n, .ok k⟩) : Longest k (cs.take n) cs ∧ n ≤ cs.length := by
  obtain ⟨w, rest, rfl, rfl, hw⟩ := startsWithWord_of_token hne h
  have htriple := not_tripleQuote_of_token h
  rw [List.take_left]
  refine ⟨⟨hw, List.prefix_append _ _, ?_⟩, by simp⟩
  rintro k' w' hw' ⟨rest', hrest'⟩
  rw [← hrest'] at h htriple
  obtain ⟨n, k'', hread, hle⟩ := exists_token_of_spelling hw' rest' htriple
  rw [h] at hread
  have hn : w.length = n := (Reading.mk.inj hread).1
  omega

/-! ## Words before a blank -/

/-- The text ends here or goes on with a blank. -/
def EndsWord (rest : List Char) : Prop :=
  ∀ c ∈ rest.head?, isBlank c

lemma takeWhile_eq_nil_of_endsWord {p : Char → Bool} (hrest : EndsWord rest)
    (hp : ∀ c, isBlank c → ¬ p c) : rest.takeWhile p = [] := by
  rcases rest with _ | ⟨c, rest⟩
  · rfl
  · exact List.takeWhile_cons_of_neg (hp c (hrest c rfl))

lemma optional_eq_zero_of_endsWord {p : Char → Bool} (hrest : EndsWord rest)
    (hp : ∀ c, isBlank c → ¬ p c) : optional p rest = 0 := by
  rcases rest with _ | ⟨c, rest⟩
  · rfl
  · exact if_neg (hp c (hrest c rfl))

lemma blank_cases {c : Char} (h : isBlank c) :
    c = ' ' ∨ c = '\x08' ∨ c = '\n' ∨ c = '\r' ∨ c = '\t' := by
  simpa [isBlank, or_assoc] using h

/-- A class that has none of the five blanks has no blank. -/
lemma not_of_isBlank {p : Char → Bool} (h : [' ', '\x08', '\n', '\r', '\t'].all (!p ·))
    (c : Char) (hc : isBlank c) : ¬ p c := by
  simp only [List.all_cons, List.all_nil, Bool.and_eq_true, Bool.not_eq_true'] at h
  rcases blank_cases hc with rfl | rfl | rfl | rfl | rfl <;> simp [h]

lemma fraction_eq_zero_of_endsWord (hrest : EndsWord rest) : fraction rest = 0 := by
  rcases fraction_eq_zero_or rest with hzero | ⟨fs, tail, rfl, -, -⟩
  · exact hzero
  · exact absurd (hrest '.' rfl) (by decide)

/-- A word is read as what it is, and nothing more, if the text ends after it or goes on with a
blank. -/
theorem token_append_of_endsWord {k : Token.Kind} {w : List Char} (hw : Spelling k w)
    (hrest : EndsWord rest) : token (w ++ rest) = ⟨w.length, .ok k⟩ := by
  have hdigits : rest.takeWhile Char.isDigit = [] :=
    takeWhile_eq_nil_of_endsWord hrest (not_of_isBlank (by decide))
  have hfraction := fraction_eq_zero_of_endsWord hrest
  cases hw with
  | @identifier c cs hc hcs =>
    have hall : ∀ x ∈ c :: cs, isNamePart x := by
      simpa [isNamePart_of_isNameStart hc] using hcs
    have hstop : rest.takeWhile isNamePart = [] :=
      takeWhile_eq_nil_of_endsWord hrest (not_of_isBlank (by decide))
    rw [List.cons_append, token_of_isNameStart hc, ← List.cons_append, identifier_append hall,
      hstop]
    rfl
  | @integer s ds hs hd =>
    rw [List.append_assoc, token_number hs hd, number_append hs hd hdigits, hfraction, if_pos rfl,
      List.length_append, Nat.add_zero]
  | @decimal s ds fs hs hd hf =>
    have hshape : s ++ ds ++ '.' :: fs ++ rest = s ++ (ds ++ '.' :: (fs ++ rest)) := by simp
    rw [hshape, token_number hs hd, number_append hs hd (by simp), fraction_append hf, hdigits,
      if_neg (by omega)]
    congr 1
    simp only [List.length_append, List.length_cons, List.length_nil]
    omega
  | @character u hu =>
    have hshape : '\'' :: (u ++ ['\'']) ++ rest = '\'' :: (u ++ '\'' :: rest) := by simp
    rw [hshape, token_singleQuote, character_append hu]
    simp
  | @string us hus =>
    have hshape : '"' :: (us ++ ['"']) ++ rest = '"' :: (us ++ '"' :: rest) := by simp
    have htriple : ¬ tripleQuote <+: '"' :: (us ++ '"' :: rest) := by
      rintro ⟨tail, htail⟩
      simp only [tripleQuote, List.cons_append, List.nil_append, List.cons.injEq, true_and] at htail
      rcases us with _ | ⟨c, us⟩
      · rw [List.nil_append, List.cons.injEq] at htail
        exact absurd (hrest '"' (by rw [← htail.2]; rfl)) (by decide)
      · rw [List.cons_append, List.cons.injEq] at htail
        exact head?_units_ne_quote hus (by simp) (by rw [← htail.1, List.head?_cons])
    rw [hshape, token_doubleQuote, string_append hus htriple]
    simp
  | comparison hc => exact token_comparison hc rest
  | @single c hsingle hdouble hname hdigit =>
    have hnext : optional Char.isDigit rest = 0 :=
      optional_eq_zero_of_endsWord hrest (not_of_isBlank (by decide))
    have hequals : optional (· = '=') rest = 0 :=
      optional_eq_zero_of_endsWord hrest (not_of_isBlank (by decide))
    have hnumber : ¬ StartsNumber c rest := by
      simp [StartsNumber, hdigit, hnext]
    rw [List.singleton_append, token_of_other hname hnumber hsingle hdouble]
    simp [operator, hequals]

/-- A word has one kind only. -/
theorem kind_unique {k k' : Token.Kind} {w : List Char} (h : Spelling k w)
    (h' : Spelling k' w) : k = k' := by
  have hends : EndsWord [] := by simp [EndsWord]
  have hread := (token_append_of_endsWord h hends).symm.trans (token_append_of_endsWord h' hends)
  exact Except.ok.inj (Reading.mk.inj hread).2

lemma ne_nil_of_spelling {k : Token.Kind} {w : List Char} (h : Spelling k w) : w ≠ [] := by
  cases h with
  | integer _ hd => simp [hd.1]
  | _ => simp

/-- The longest word at the front of a text is what is read of it, after three double quotes
apart. -/
theorem token_eq_of_longest {cs w : List Char} {k : Token.Kind} (hw : Longest k w cs)
    (htriple : ¬ tripleQuote <+: cs) : token cs = ⟨w.length, .ok k⟩ := by
  obtain ⟨rest, hrest⟩ := hw.starts
  obtain ⟨n, k', hread, hle⟩ :=
    exists_token_of_spelling hw.spelling rest (hrest.symm ▸ htriple)
  rw [hrest] at hread
  have hne : cs ≠ [] := by
    rw [← hrest]
    exact List.append_ne_nil_of_left_ne_nil (ne_nil_of_spelling hw.spelling) _
  obtain ⟨hlongest, hlength⟩ := longest_of_token hne hread
  have hn : n = w.length := by
    have hge := hw.longest k' (cs.take n) hlongest.spelling hlongest.starts
    rw [List.length_take, Nat.min_eq_left hlength] at hge
    omega
  have hsame : cs.take n = w := by rw [hn, ← hrest, List.take_left]
  have hkind : k' = k := kind_unique (hsame ▸ hlongest.spelling) hw.spelling
  rw [hread, hn, hkind]

end LetDef.Lexeme

namespace LetDef

open Lexeme

/-- Where nothing is held, a scan for a token succeeds exactly with the longest word ahead. -/
theorem Reader.scan_token_eq_ok_iff {start : Nat} {cs : List Char} {token : Token} {r' : Reader}
    (hne : cs ≠ []) :
    (⟨start, [], cs⟩ : Reader).scan Lexeme.token = (.ok token, r') ↔
      (Longest token.kind token.literal.toList cs ∧ ¬ tripleQuote <+: cs) ∧
      token.offset = start ∧
      r' = ⟨start + token.literal.length, [], cs.drop token.literal.length⟩ := by
  rw [Reader.scan_eq_ok_iff]
  constructor
  · rintro ⟨n, kind, hread, hcut⟩
    obtain ⟨hlongest, hlength⟩ := longest_of_token hne hread
    rw [Reader.cut_advanceBy, Nat.min_eq_left hlength] at hcut
    obtain ⟨rfl, rfl⟩ := Prod.mk.inj hcut
    have hn : (String.ofList (cs.take n)).length = n := by
      rw [String.length_ofList, List.length_take, Nat.min_eq_left hlength]
    rw [hn]
    exact ⟨⟨by rwa [String.toList_ofList], not_tripleQuote_of_token hread⟩, rfl, rfl⟩
  · rintro ⟨⟨hlongest, htriple⟩, hoffset, rfl⟩
    refine ⟨_, _, token_eq_of_longest hlongest htriple, ?_⟩
    have hlength := hlongest.starts.length_le
    rw [Reader.cut_advanceBy, ← List.prefix_iff_eq_take.1 hlongest.starts,
      Nat.min_eq_left hlength, String.ofList_toList, String.length_toList, ← hoffset]

/-- At every place of a text where nothing is pending, a scan succeeds with a token exactly if the
token is the longest word that the rest of the text starts with, and the rest does not start with
three double quotes.  A scan that succeeds reads exactly the word and leaves nothing pending. -/
theorem Tokenizer.scan_token_iff_longest (text : String) (t : Tokenizer)
    (hin : t.reader.In text.toList) (hpending : t.reader.pending = 0)
    (hindex : t.reader.index < text.length) :
    (∀ kind word,
      (∃ token t', t.scan Lexeme.token = (.ok token, t') ∧
        token.kind = kind ∧ token.literal = word) ↔
      Longest kind word.toList (text.toList.drop t.reader.index) ∧
        ¬ tripleQuote <+: text.toList.drop t.reader.index) ∧
    ∀ token t', t.scan Lexeme.token = (.ok token, t') →
      token.offset = t.reader.index ∧
      t'.reader.index = t.reader.index + token.literal.length ∧
      t'.reader.In text.toList ∧ t'.reader.pending = 0 := by
  have hne : t.reader.ahead ≠ [] := by
    intro hnil
    have hlength := hin.index_add_length
    rw [hnil, List.length_nil, String.length_toList] at hlength
    omega
  have hreader := Reader.eq_mk_of_pending hpending
  have hscan : ∀ token t', t.scan Lexeme.token = (.ok token, t') ↔
      ((⟨t.reader.index, [], t.reader.ahead⟩ : Reader).scan Lexeme.token = (.ok token, t'.reader)
        ∧ t'.failed = t.failed) := by
    intro token t'
    rw [← hreader]
    constructor
    · intro h
      obtain ⟨hanswer, rfl⟩ := Prod.mk.inj h
      exact ⟨Prod.ext hanswer rfl, rfl⟩
    · rintro ⟨h, hfailed⟩
      simp only [Tokenizer.scan, h, ← hfailed]
  simp only [hscan, Reader.scan_token_eq_ok_iff hne, ← hin.ahead_eq]
  refine ⟨fun kind word => ⟨?_, ?_⟩, ?_⟩
  · rintro ⟨token, t', ⟨⟨hword, -⟩, -⟩, rfl, rfl⟩
    exact hword
  · intro hword
    exact ⟨⟨kind, word, t.reader.index⟩, ⟨⟨_, _, _⟩, t.failed⟩, ⟨⟨hword, rfl, rfl⟩, rfl⟩, rfl, rfl⟩
  · rintro token t' ⟨⟨hword, hoffset, ht'⟩, -⟩
    have hread := (Reader.scan_token_eq_ok_iff hne).2 ⟨hword, hoffset, ht'⟩
    refine ⟨hoffset, by rw [ht']; rfl, ?_, by rw [ht']; rfl⟩
    have hmoved := hin.scan Lexeme.token
    rwa [hreader, hread] at hmoved

/-- After `+5.2` a point and a letter follow, so the longest word is the decimal. -/
theorem Tokenizer.scan_token_iff_longest_decimal :
    (Reader.mk 2 [] "+5.2.x".toList).In "a +5.2.x".toList ∧
      Longest .decimal "+5.2".toList "+5.2.x".toList := by
  have hin : (Reader.mk 2 [] "+5.2.x".toList).In "a +5.2.x".toList := ⟨['a', ' '], rfl, rfl⟩
  have hscan :=
    scan_token_iff_longest "a +5.2.x" ⟨⟨2, [], "+5.2.x".toList⟩, false⟩ hin rfl (by decide)
  have htoken : (⟨⟨2, [], "+5.2.x".toList⟩, false⟩ : Tokenizer).scan Lexeme.token =
      (.ok ⟨.decimal, "+5.2", 2⟩, ⟨⟨6, [], ".x".toList⟩, false⟩) := by cbv
  exact ⟨hin, ((hscan.1 .decimal "+5.2").1 ⟨_, _, htoken, rfl, rfl⟩).1⟩

end LetDef
