import LetDef.Proofs.Lexical.LongestMatch

/-!
# Tokens and blanks make up a text

`Cuts start cs ts` says, without a tokenizer, that the characters `cs` are the tokens `ts` with
blanks between them, when `cs` starts at the index `start`: each token is the longest word where it
stands.  `tokens_eq_ok_iff` is the tie to `Tokenizer.tokens`, in both directions.

Everything about the places of tokens follows from it by induction.  `Partition` collects what a
text and its tokens have to do with each other: the tokens are slices of the text, they follow one
another, and what lies outside them is blank.  `tokenize_partition` is the main result.
-/

namespace LetDef

/-! ## Cutting a text -/

/-- The characters that separate tokens. -/
def blanks : List Char := [' ', '\x08', '\n', '\r', '\t']

lemma isBlank_iff {c : Char} : isBlank c ↔ c ∈ blanks := by
  simp [isBlank, blanks, or_assoc]

/-- The characters `cs`, which start at the index `start`, are the tokens with blanks between
them. -/
inductive Cuts : Nat → List Char → List Token → Prop where
  | blank {start : Nat} {gap : List Char} : (∀ c ∈ gap, isBlank c) → Cuts start gap []
  | token {start : Nat} {gap rest : List Char} {token : Token} {tokens : List Token} :
      (∀ c ∈ gap, isBlank c) →
      (∀ c ∈ token.literal.toList.head?, ¬ isBlank c) →
      Longest token.kind token.literal.toList (token.literal.toList ++ rest) →
      ¬ tripleQuote <+: token.literal.toList ++ rest →
      token.offset = start + gap.length →
      Cuts token.endOffset rest tokens →
      Cuts start (gap ++ (token.literal.toList ++ rest)) (token :: tokens)

namespace Tokenizer

/-- A tokenizer at an index, with nothing pending and no fault behind it. -/
def fresh (start : Nat) (cs : List Char) : Tokenizer := ⟨⟨start, [], cs⟩, false⟩

lemma ofString_eq_fresh (text : String) : ofString text = fresh 0 text.toList := rfl

lemma skipBlanks_append {start : Nat} {gap cs : List Char} (hgap : ∀ c ∈ gap, isBlank c)
    (hcs : cs.takeWhile isBlank = []) :
    (⟨start, [], gap ++ cs⟩ : Reader).skipBlanks = ⟨start + gap.length, [], cs⟩ := by
  have hblanks : (gap ++ cs).takeWhile isBlank = gap := by
    rw [List.takeWhile_append_of_pos hgap, hcs, List.append_nil]
  unfold Reader.skipBlanks
  simp only [hblanks]
  split
  · next hlength =>
    obtain rfl := List.eq_nil_of_length_eq_zero hlength
    rfl
  · next n hlength =>
    have hn : n + 1 = gap.length := hlength.symm
    rw [hn]
    simp [Reader.advanceBy, Reader.mark, Reader.index, Reader.pending]

/-- The next token is what a scan after the blanks gives. -/
lemma next_fresh_of_scan_ok {start : Nat} {gap cs : List Char} {token : Token} {r : Reader}
    (hgap : ∀ c ∈ gap, isBlank c) (hcs : cs.takeWhile isBlank = []) (hne : cs ≠ [])
    (hscan : (⟨start + gap.length, [], cs⟩ : Reader).scan Lexeme.token = (.ok token, r)) :
    (fresh start (gap ++ cs)).next = (some (.ok token), ⟨r.mark, false⟩) := by
  simp [next, fresh, skipBlanks_append hgap hcs, hne, hscan]

lemma next_fresh_of_scan_error {start : Nat} {gap cs : List Char} {fault : Fault} {r : Reader}
    (hgap : ∀ c ∈ gap, isBlank c) (hcs : cs.takeWhile isBlank = []) (hne : cs ≠ [])
    (hscan : (⟨start + gap.length, [], cs⟩ : Reader).scan Lexeme.token = (.error fault, r)) :
    (fresh start (gap ++ cs)).next = (some (.error fault), ⟨r.mark, true⟩) := by
  simp [next, fresh, skipBlanks_append hgap hcs, hne, hscan]

/-- After blanks only there is no token. -/
lemma next_fresh_blank {start : Nat} {gap : List Char} (hgap : ∀ c ∈ gap, isBlank c) :
    (fresh start gap).next = (none, fresh (start + gap.length) []) := by
  have hskip : (⟨start, [], gap ++ []⟩ : Reader).skipBlanks = ⟨start + gap.length, [], []⟩ :=
    skipBlanks_append hgap rfl
  rw [List.append_nil] at hskip
  simp [next, fresh, hskip]

lemma exists_of_map_eq_ok {ε α β : Type} {f : α → β} {x : Except ε α} {b : β}
    (h : x.map f = .ok b) : ∃ a, x = .ok a ∧ f a = b := by
  cases x with
  | error e => simp [Except.map] at h
  | ok a => exact ⟨a, rfl, Except.ok.inj h⟩

lemma tokens_of_next_none {t t' : Tokenizer} (h : t.next = (none, t')) : t.tokens = .ok [] := by
  rw [tokens]
  split <;> simp_all

lemma tokens_of_next_error {t t' : Tokenizer} {fault : Fault}
    (h : t.next = (some (.error fault), t')) : t.tokens = .error fault := by
  rw [tokens]
  split <;> simp_all

lemma tokens_of_next_ok {t t' : Tokenizer} {token : Token}
    (h : t.next = (some (.ok token), t')) :
    t.tokens = (t'.tokens).map (token :: ·) := by
  rw [tokens]
  split <;> simp_all [Except.map, bind, Except.bind, pure, Except.pure]

/-! ## Cuts are what a tokenizer finds -/

/-- Every text is blank, or has a first character after its blanks that is none. -/
lemma blank_or_exists_gap (cs : List Char) :
    (∀ c ∈ cs, isBlank c) ∨
      ∃ gap rest, cs = gap ++ rest ∧ (∀ c ∈ gap, isBlank c) ∧ rest ≠ [] ∧
        rest.takeWhile isBlank = [] := by
  by_cases hrest : cs.dropWhile isBlank = []
  · left
    have hall := List.takeWhile_append_dropWhile (p := isBlank) (l := cs)
    rw [hrest, List.append_nil] at hall
    intro c hc
    exact List.mem_takeWhile_imp (hall.symm ▸ hc)
  · right
    exact ⟨cs.takeWhile isBlank, cs.dropWhile isBlank, List.takeWhile_append_dropWhile.symm,
      fun c => List.mem_takeWhile_imp, hrest, Lexeme.takeWhile_dropWhile_self _ _⟩

lemma head?_of_takeWhile_eq_nil {cs w rest : List Char} (hcs : cs.takeWhile isBlank = [])
    (hw : cs = w ++ rest) (hne : w ≠ []) : ∀ c ∈ w.head?, ¬ isBlank c := by
  obtain ⟨d, w, rfl⟩ := List.exists_cons_of_ne_nil hne
  rintro c hc hblank
  obtain rfl : d = c := by simpa using hc
  rw [hw, List.cons_append, List.takeWhile_cons_of_pos hblank] at hcs
  exact List.cons_ne_nil _ _ hcs

/-- The next token where blanks and a longest word are ahead. -/
lemma next_fresh_token {start : Nat} {gap rest : List Char} {token : Token}
    (hgap : ∀ c ∈ gap, isBlank c) (hhead : ∀ c ∈ token.literal.toList.head?, ¬ isBlank c)
    (hlongest : Longest token.kind token.literal.toList (token.literal.toList ++ rest))
    (htriple : ¬ tripleQuote <+: token.literal.toList ++ rest)
    (hoffset : token.offset = start + gap.length) :
    (fresh start (gap ++ (token.literal.toList ++ rest))).next =
      (some (.ok token), fresh token.endOffset rest) := by
  have hword := Lexeme.ne_nil_of_spelling hlongest.spelling
  have hne : token.literal.toList ++ rest ≠ [] := List.append_ne_nil_of_left_ne_nil hword _
  have hcs : (token.literal.toList ++ rest).takeWhile isBlank = [] := by
    obtain ⟨c, w, hw⟩ := List.exists_cons_of_ne_nil hword
    rw [hw, List.cons_append]
    exact List.takeWhile_cons_of_neg (hhead c (by rw [hw]; rfl))
  have hscan := (Reader.scan_token_eq_ok_iff hne).2 ⟨⟨hlongest, htriple⟩, hoffset, rfl⟩
  have hdrop : (token.literal.toList ++ rest).drop token.literal.length = rest := by
    rw [← String.length_toList, List.drop_left]
  rw [next_fresh_of_scan_ok hgap hcs hne hscan, hdrop]
  simp [fresh, Reader.mark, Reader.index, Reader.pending, Token.endOffset, hoffset]

/-- One step of a tokenizer that stands in a text where nothing is pending: the text is blank, or
its first word is cut off, or it starts with no word. -/
lemma next_fresh_cases (start : Nat) (cs : List Char) :
    ((∀ c ∈ cs, isBlank c) ∧ ((fresh start cs).next).1 = none) ∨
    (∃ fault t', (fresh start cs).next = (some (.error fault), t')) ∨
    ∃ gap rest token, cs = gap ++ (token.literal.toList ++ rest) ∧ (∀ c ∈ gap, isBlank c) ∧
      (∀ c ∈ token.literal.toList.head?, ¬ isBlank c) ∧
      Longest token.kind token.literal.toList (token.literal.toList ++ rest) ∧
      ¬ tripleQuote <+: token.literal.toList ++ rest ∧
      token.offset = start + gap.length ∧
      (fresh start cs).next = (some (.ok token), fresh token.endOffset rest) := by
  rcases blank_or_exists_gap cs with hblank | ⟨gap, cs, rfl, hgap, hne, hcs⟩
  · exact .inl ⟨hblank, by rw [next_fresh_blank hblank]⟩
  right
  rcases hscan : (⟨start + gap.length, [], cs⟩ : Reader).scan Lexeme.token with
    ⟨fault | token, r⟩
  · exact .inl ⟨fault, _, next_fresh_of_scan_error hgap hcs hne hscan⟩
  · right
    obtain ⟨⟨hlongest, htriple⟩, hoffset, rfl⟩ := (Reader.scan_token_eq_ok_iff hne).1 hscan
    obtain ⟨rest, hrest⟩ := hlongest.starts
    have hword := Lexeme.ne_nil_of_spelling hlongest.spelling
    have hhead := head?_of_takeWhile_eq_nil hcs hrest.symm hword
    rw [← hrest] at hlongest htriple ⊢
    exact ⟨gap, rest, token, rfl, hgap, hhead, hlongest, htriple, hoffset,
      next_fresh_token hgap hhead hlongest htriple hoffset⟩

/-- A tokenizer finds exactly the tokens that a text is cut into. -/
theorem tokens_eq_ok_iff {start : Nat} {cs : List Char} {ts : List Token} :
    (fresh start cs).tokens = .ok ts ↔ Cuts start cs ts := by
  constructor
  · intro h
    induction ts generalizing start cs with
    | nil =>
      rcases next_fresh_cases start cs with ⟨hblank, -⟩ | ⟨fault, t', hnext⟩ | hword
      · exact .blank hblank
      · simp [tokens_of_next_error hnext] at h
      · obtain ⟨gap, rest, token, -, -, -, -, -, -, hnext⟩ := hword
        rw [tokens_of_next_ok hnext] at h
        obtain ⟨ts, -, hts⟩ := exists_of_map_eq_ok h
        simp at hts
    | cons token ts ih =>
      rcases next_fresh_cases start cs with ⟨hblank, -⟩ | ⟨fault, t', hnext⟩ | hword
      · simp [tokens_of_next_none (next_fresh_blank hblank)] at h
      · simp [tokens_of_next_error hnext] at h
      · obtain ⟨gap, rest, token, rfl, hgap, hhead, hlongest, htriple, hoffset, hnext⟩ := hword
        rw [tokens_of_next_ok hnext] at h
        obtain ⟨ts, hrest, hts⟩ := exists_of_map_eq_ok h
        obtain ⟨rfl, rfl⟩ := List.cons.inj hts
        exact .token hgap hhead hlongest htriple hoffset (ih hrest)
  · intro h
    induction h with
    | blank hgap => exact tokens_of_next_none (next_fresh_blank hgap)
    | token hgap hhead hlongest htriple hoffset _ ih =>
      rw [tokens_of_next_ok (next_fresh_token hgap hhead hlongest htriple hoffset), ih]
      rfl

/-! ## Runs of a tokenizer -/

/-- Asked again and again, the tokenizer `t` gives the tokens `ts` and is then at `t'`. -/
inductive Run : Tokenizer → List Token → Tokenizer → Prop where
  | done {t : Tokenizer} : Run t [] t
  | step {t t₁ t' : Tokenizer} {token : Token} {ts : List Token} :
      t.next = (some (.ok token), t₁) → Run t₁ ts t' → Run t (token :: ts) t'

/-- A tokenizer comes to an end: after no more tokens than there are characters ahead it has none
left, or meets a fault. -/
theorem exists_run (t : Tokenizer) :
    ∃ ts t', Run t ts t' ∧ ts.length ≤ t.reader.ahead.length ∧
      ((t'.next.1 = none ∧ t.tokens = .ok ts) ∨
        ∃ fault, t'.next.1 = some (.error fault) ∧ t.tokens = .error fault) := by
  rcases hnext : t.next with ⟨_ | fault | token, t₁⟩
  · exact ⟨[], t, .done, Nat.zero_le _, .inl ⟨by rw [hnext], tokens_of_next_none hnext⟩⟩
  · exact ⟨[], t, .done, Nat.zero_le _,
      .inr ⟨fault, by rw [hnext], tokens_of_next_error hnext⟩⟩
  · have hlt := length_ahead_next_lt hnext
    obtain ⟨ts, t', hrun, hlength, hend⟩ := exists_run t₁
    refine ⟨token :: ts, t', .step hnext hrun, by rw [List.length_cons]; omega, ?_⟩
    rw [tokens_of_next_ok hnext]
    rcases hend with ⟨hnone, hts⟩ | ⟨fault, herror, hts⟩
    · exact .inl ⟨hnone, by rw [hts]; rfl⟩
    · exact .inr ⟨fault, herror, by rw [hts]; rfl⟩
termination_by t.reader.ahead.length

end Tokenizer

/-! ## The places of tokens -/

/-- What a text and its tokens have to do with each other. -/
structure Partition (text : List Char) (ts : List Token) : Prop where
  /-- No token is empty, and none starts with a blank. -/
  starts : ∀ t ∈ ts, ∃ c ∈ t.literal.toList.head?, c ∉ blanks
  /-- A token takes up some of the text. -/
  nonempty : ∀ t ∈ ts, t.offset < t.endOffset
  /-- The literal of a token is what stands at its place. -/
  slice : ∀ t ∈ ts, t.endOffset ≤ text.length ∧
    t.literal.toList = (text.drop t.offset).take (t.endOffset - t.offset)
  /-- A token ends before every later one starts. -/
  ordered : ts.Pairwise fun t u => t.endOffset ≤ u.offset
  /-- A character that is part of no token is blank. -/
  outside : ∀ i c, text[i]? = some c → (∀ t ∈ ts, i < t.offset ∨ t.endOffset ≤ i) → c ∈ blanks
  /-- The text is the tokens with blanks before, between and after them. -/
  interleaved : ∃ (gap : List Char) (gaps : List (List Char)), gaps.length = ts.length ∧
    (∀ c ∈ gap, c ∈ blanks) ∧ (∀ g ∈ gaps, ∀ c ∈ g, c ∈ blanks) ∧
    text = gap ++ (List.zipWith (fun t g => t.literal.toList ++ g) ts gaps).flatten

namespace Cuts

variable {start : Nat} {cs : List Char} {ts : List Token}

lemma starts (h : Cuts start cs ts) :
    ∀ t ∈ ts, ∃ c ∈ t.literal.toList.head?, c ∉ blanks := by
  induction h with
  | blank _ => simp
  | @token _ _ _ token _ _ hhead hlongest _ _ _ ih =>
    obtain ⟨c, w, hw⟩ := List.exists_cons_of_ne_nil (Lexeme.ne_nil_of_spelling hlongest.spelling)
    have hc : ¬ isBlank c := hhead c (by rw [hw]; rfl)
    rintro t (_ | ⟨_, ht⟩)
    · exact ⟨c, by rw [hw]; rfl, by rwa [← isBlank_iff]⟩
    · exact ih t ht

lemma wellSpelled (h : Cuts start cs ts) : ∀ t ∈ ts, t.WellSpelled := by
  induction h with
  | blank _ => simp
  | token _ _ hlongest _ _ _ ih => exact List.forall_mem_cons.2 ⟨hlongest.spelling, ih⟩

lemma offset_lt (h : Cuts start cs ts) : ∀ t ∈ ts, t.offset < t.endOffset := by
  intro t ht
  have hne : t.literal.toList ≠ [] := Lexeme.ne_nil_of_spelling (h.wellSpelled t ht)
  have hpos := List.length_pos_iff.2 hne
  rw [String.length_toList] at hpos
  rw [Token.endOffset]
  omega

/-- Every token of a cut text lies behind its start. -/
lemma start_le (h : Cuts start cs ts) : ∀ t ∈ ts, start ≤ t.offset := by
  induction h with
  | blank _ => simp
  | @token _ _ _ token _ _ _ _ _ hoffset _ ih =>
    rintro t (_ | ⟨_, ht⟩)
    · omega
    · have := ih t ht
      simp only [Token.endOffset] at this
      omega

lemma ordered (h : Cuts start cs ts) : ts.Pairwise fun t u => t.endOffset ≤ u.offset := by
  induction h with
  | blank _ => exact .nil
  | token _ _ _ _ _ hrest ih => exact .cons (start_le hrest) ih

/-- The literal of each token stands in the text where the token says. -/
lemma place (h : Cuts start cs ts) : ∀ t ∈ ts, ∃ before after,
    cs = before ++ (t.literal.toList ++ after) ∧ start + before.length = t.offset := by
  induction h with
  | blank _ => simp
  | @token start gap rest token _ _ _ _ _ hoffset _ ih =>
    rintro t (_ | ⟨_, ht⟩)
    · exact ⟨gap, rest, rfl, hoffset.symm⟩
    · obtain ⟨before, after, hrest, hbefore⟩ := ih t ht
      refine ⟨gap ++ (token.literal.toList ++ before), after, by simp [hrest], ?_⟩
      rw [← hbefore, Token.endOffset, hoffset, ← String.length_toList]
      simp only [List.length_append]
      omega

lemma isBlank_of_outside (h : Cuts start cs ts) : ∀ i c, cs[i]? = some c →
    (∀ t ∈ ts, start + i < t.offset ∨ t.endOffset ≤ start + i) → isBlank c := by
  induction h with
  | blank hgap => exact fun i c hc _ => hgap c (List.mem_of_getElem? hc)
  | @token start gap rest token tokens hgap _ _ _ hoffset _ ih =>
    intro i c hc hout
    have hlength := String.length_toList (s := token.literal)
    have hend : token.endOffset = start + gap.length + token.literal.toList.length := by
      rw [Token.endOffset, hoffset, hlength]
    rcases hout token List.mem_cons_self with hbefore | hafter
    · rw [List.getElem?_append_left (by omega)] at hc
      exact hgap c (List.mem_of_getElem? hc)
    · rw [List.getElem?_append_right (by omega), List.getElem?_append_right (by omega)] at hc
      refine ih _ c hc fun t ht => ?_
      have := hout t (List.mem_cons_of_mem _ ht)
      omega

lemma interleaved (h : Cuts start cs ts) :
    ∃ (gap : List Char) (gaps : List (List Char)), gaps.length = ts.length ∧
      (∀ c ∈ gap, c ∈ blanks) ∧ (∀ g ∈ gaps, ∀ c ∈ g, c ∈ blanks) ∧
      cs = gap ++ (List.zipWith (fun t g => t.literal.toList ++ g) ts gaps).flatten := by
  induction h with
  | @blank _ gap hgap =>
    exact ⟨gap, [], rfl, fun c hc => isBlank_iff.1 (hgap c hc), by simp, by simp⟩
  | @token _ gap _ token _ hgap _ _ _ _ _ ih =>
    obtain ⟨gap', gaps, hlength, hgap', hgaps, rfl⟩ := ih
    refine ⟨gap, gap' :: gaps, by simp [hlength], fun c hc => isBlank_iff.1 (hgap c hc), ?_,
      by simp⟩
    rintro g (_ | ⟨_, hg⟩)
    · exact hgap'
    · exact hgaps g hg

theorem partition {text : List Char} (h : Cuts 0 text ts) : Partition text ts where
  starts := h.starts
  nonempty := h.offset_lt
  slice t ht := by
    obtain ⟨before, after, rfl, hbefore⟩ := h.place t ht
    have hlength := String.length_toList (s := t.literal)
    have hoffset : t.offset = before.length := by omega
    constructor
    · simp only [Token.endOffset, List.length_append]
      omega
    · rw [hoffset, List.drop_left, Token.endOffset, hoffset, Nat.add_sub_cancel_left, ← hlength,
        List.take_left]
  ordered := h.ordered
  outside i c hc hout := isBlank_iff.1 (h.isBlank_of_outside i c hc (by simpa using hout))
  interleaved := h.interleaved

end Cuts

theorem wellSpelled_of_tokenize {text : String} {ts : List Token} (h : tokenize text = .ok ts) :
    ∀ t ∈ ts, t.WellSpelled :=
  (Tokenizer.tokens_eq_ok_iff.1 h).wellSpelled

/-- A text that is cut into tokens is those tokens and the blanks around them, and nothing is lost
or invented.  Cutting a text comes to an end, whatever the text is: the tokenizer is asked for at
most as many tokens as there are characters before it has none left or meets a fault. -/
theorem tokenize_partition (text : String) :
    (∀ ts, tokenize text = .ok ts → Partition text.toList ts) ∧
    ∃ ts t, Tokenizer.Run (Tokenizer.ofString text) ts t ∧ ts.length ≤ text.length ∧
      ((t.next.1 = none ∧ tokenize text = .ok ts) ∨
        ∃ fault, t.next.1 = some (.error fault) ∧ tokenize text = .error fault) := by
  refine ⟨fun ts h => ?_, ?_⟩
  · exact (Tokenizer.tokens_eq_ok_iff.1 h).partition
  · have hrun := Tokenizer.exists_run (Tokenizer.ofString text)
    rwa [Tokenizer.ofString_eq_fresh, show (Tokenizer.fresh 0 text.toList).reader.ahead.length
      = text.length from String.length_toList] at hrun

theorem tokenize_partition_tab :
    ∃ ts, tokenize " x<=\t-5" = .ok ts ∧ ts.length = 3 ∧ Partition " x<=\t-5".toList ts := by
  have htext : tokenize " x<=\t-5" =
      .ok [⟨.identifier, "x", 1⟩, ⟨.operator, "<=", 2⟩, ⟨.integer, "-5", 5⟩] := by cbv
  exact ⟨_, htext, rfl, (tokenize_partition _).1 _ htext⟩

end LetDef
