import LetDef.Proofs.Grammar.Parallel
import LetDef.Proofs.Lexical.Partition
import LetDef.Proofs.Printing.Values

/-!
# Literals that are recognised are decoded

What a recogniser takes for a number or a quoted text is decoded later, by readers that know nothing
of the recognisers: they take out underscores and signs, look for an exponent and translate escapes.
Both sides agree.  Every literal that a text is cut into has a value
(`HasValue.exists_of_spelling`), which is the one that its digits and characters say (`HasValue`),
and the readers find that value (`HasValue.literalValue?_eq`).

So the fault for a literal without a value is never met where the tokens come from a text.  Tokens
that do not can be malformed; it is the shape of the literal that excludes it and nothing in the
grammar.  Hence the fact about all rules is a comparison of a run with itself: a `Coupling` that
holds of tokens with a value only.

The number of digits after a point has to fit into a word of 64 bits, which is where the length of
the text comes in.
-/

namespace LetDef

/-! ## Values -/

/-- The number that digits write, of which the last one counts ones. -/
def digitsValue (ds : List Char) : Nat :=
  Nat.ofDigits 10 (ds.reverse.map fun d => d.toNat - '0'.toNat)

/-- The number that digits write after a sign or none. -/
def signedValue (s ds : List Char) : Int :=
  if s = ['-'] then -(digitsValue ds : Int) else digitsValue ds

/-- What the letters stand for after a backslash. -/
def escapes : List (Char × Char) :=
  [('b', '\x08'), ('n', '\n'), ('r', '\r'), ('t', '\t'), ('\\', '\\'), ('\'', '\''), ('"', '"')]

/-- The character that a unit between two quotes stands for. -/
inductive UnitValue : List Char → Char → Prop where
  | escape {letter value : Char} : (letter, value) ∈ escapes → UnitValue ['\\', letter] value
  | raw {c : Char} : c ≠ '\\' → UnitValue [c] c

/-- The characters that units between two quotes stand for, one after the other. -/
inductive UnitValues : List Char → List Char → Prop where
  | nil : UnitValues [] []
  | cons {u us cs : List Char} {c : Char} :
      UnitValue u c → UnitValues us cs → UnitValues (u ++ us) (c :: cs)

/-- The value of a literal of each kind that has values. -/
inductive HasValue : Token.Kind → List Char → Literal → Prop where
  | integer {s ds : List Char} : IsSignPart s → IsDigits ds →
      HasValue .integer (s ++ ds) (.integer (signedValue s ds))
  | decimal {s ds fs : List Char} : IsSignPart s → IsDigits ds → IsDigits fs →
      HasValue .decimal (s ++ ds ++ '.' :: fs) (.decimal ⟨signedValue s (ds ++ fs), fs.length⟩)
  | character {u : List Char} {c : Char} : UnitValue u c →
      HasValue .character ('\'' :: (u ++ ['\''])) (.character c)
  | string {us cs : List Char} : UnitValues us cs →
      HasValue .string ('"' :: (us ++ ['"'])) (.string (String.ofList cs))

/-- The kinds of literals that have values. -/
def Token.Kind.isLiteral : Token.Kind → Bool
  | .integer | .decimal | .character | .string => true
  | .identifier | .operator => false

/-! ## Quoted text -/

/-- Every unit of a quoted text stands for a character. -/
lemma UnitValue.exists_of_quotedUnit {quote : Char} {u : List Char} (h : QuotedUnit quote u) :
    ∃ c, UnitValue u c := by
  cases h with
  | @escape letter hletter =>
    obtain ⟨value, hvalue⟩ : ∃ value, (letter, value) ∈ escapes := by
      simpa [escapeLetters, escapes, exists_or] using hletter
    exact ⟨value, .escape hvalue⟩
  | @raw c _ hslash _ _ => exact ⟨c, .raw hslash⟩

lemma UnitValues.exists_of_quotedUnits {quote : Char} {us : List Char}
    (h : QuotedUnits quote us) : ∃ cs, UnitValues us cs := by
  induction h with
  | nil => exact ⟨[], .nil⟩
  | cons hu _ ih =>
    obtain ⟨c, hc⟩ := UnitValue.exists_of_quotedUnit hu
    obtain ⟨cs, hcs⟩ := ih
    exact ⟨c :: cs, .cons hc hcs⟩

namespace Quoted

lemma escapeValue?_of_mem {letter value : Char} (h : (letter, value) ∈ escapes) :
    escapeValue? letter = some value := by
  simp only [escapes, List.mem_cons, Prod.mk.injEq, List.not_mem_nil, or_false] at h
  rcases h with ⟨rfl, rfl⟩ | ⟨rfl, rfl⟩ | ⟨rfl, rfl⟩ | ⟨rfl, rfl⟩ | ⟨rfl, rfl⟩ | ⟨rfl, rfl⟩ |
    ⟨rfl, rfl⟩ <;> rfl

lemma decodeUnits_append {u : List Char} {c : Char} (h : UnitValue u c) (us : List Char) :
    decodeUnits (u ++ us) = (decodeUnits us).map (c :: ·) := by
  cases h with
  | escape hmem => exact decodeUnits_letter (escapeValue?_of_mem hmem) us
  | raw hslash => exact decodeUnits_raw hslash us

/-- Units are decoded to the characters that they stand for, by induction on the units. -/
lemma decodeUnits_of_unitValues {us cs : List Char} (h : UnitValues us cs) :
    decodeUnits us = some cs := by
  induction h with
  | nil => rfl
  | cons hu _ ih => rw [decodeUnits_append hu, ih, Option.map_some]

lemma decode_of_unitValues {delimiter : Char} {us cs : List Char} {literal : String}
    (h : UnitValues us cs) (hliteral : literal.toList = delimiter :: (us ++ [delimiter])) :
    decode delimiter literal = some (String.ofList cs) := by
  have hbetween : between? delimiter literal.toList = some us := by
    simp [hliteral, between?]
  rw [decode, hbetween]
  simp [decodeUnits_of_unitValues h]

end Quoted

/-! ## Numbers -/

/-- The library reads digits as the number that they write. -/
lemma ofDigitChars_eq_digitsValue (ds : List Char) :
    Nat.ofDigitChars 10 ds 0 = digitsValue ds := by
  induction ds using List.reverseRecOn with
  | nil => rfl
  | append_singleton ds d ih =>
    rw [Nat.ofDigitChars_append, ih, digitsValue, digitsValue, List.reverse_append,
      List.reverse_singleton, List.singleton_append, List.map_cons, Nat.ofDigits_cons,
      Nat.ofDigitChars_cons, Nat.ofDigitChars_nil]
    exact Nat.add_comm _ _

lemma Numeral.integer?_minusPart {s ds : List Char} (hds : IsDigits ds) :
    integer? (minusPart s ++ ds) = some (signedValue s ds) := by
  unfold minusPart signedValue
  split
  · rw [List.singleton_append, integer?, if_pos rfl, natural?_of_isDigits hds,
      ofDigitChars_eq_digitsValue, Option.map_some]
  · rw [List.nil_append, integer?_of_isDigits hds, ofDigitChars_eq_digitsValue]

lemma Numeral.ofToken?_of_isDigits {s ds : List Char} {literal : String} (hs : IsSignPart s)
    (hds : IsDigits ds) (hliteral : literal.toList = s ++ ds) :
    ofToken? literal = some (signedValue s ds) := by
  have hplus := withoutPlus_append hs hds []
  rw [List.append_nil] at hplus
  rw [ofToken?, hliteral, hplus, integer?_minusPart hds]

/-- Digits with a point are read as their value and the number of places. -/
lemma Decimal.ofToken?_of_isDigits {s ds fs : List Char} {literal : String} (hs : IsSignPart s)
    (hds : IsDigits ds) (hfs : IsDigits fs) (hliteral : literal.toList = s ++ ds ++ '.' :: fs)
    (hscale : IsScale fs.length) :
    ofToken? literal = some ⟨signedValue s (ds ++ fs), fs.length⟩ := by
  rw [ofToken?, hliteral, ofChars?_withoutPlus hs hds hfs, if_pos hscale, List.append_assoc,
    Numeral.integer?_minusPart (isDigits_append hds hfs), Option.map_some]

/-! ## Literals -/

namespace HasValue

variable {k : Token.Kind} {cs : List Char} {t : Token} {v : Literal}

/-- Every word for a literal has a value. -/
theorem exists_of_spelling (h : Spelling k cs) (hk : k.isLiteral) : ∃ v, HasValue k cs v := by
  cases h with
  | identifier _ _ => exact absurd hk (by decide)
  | integer hs hds => exact ⟨_, .integer hs hds⟩
  | decimal hs hds hfs => exact ⟨_, .decimal hs hds hfs⟩
  | character hu =>
    obtain ⟨c, hc⟩ := UnitValue.exists_of_quotedUnit hu
    exact ⟨_, .character hc⟩
  | string hus =>
    obtain ⟨cs, hcs⟩ := UnitValues.exists_of_quotedUnits hus
    exact ⟨_, .string hcs⟩
  | comparison _ => exact absurd hk (by decide)
  | single _ _ _ _ => exact absurd hk (by decide)

/-- The readers find the value that a literal has. -/
theorem literalValue?_eq (h : HasValue t.kind t.literal.toList v)
    (hlength : t.literal.length < 2 ^ 63) : Grammar.literalValue? t = some v := by
  rw [← String.length_toList] at hlength
  unfold Grammar.literalValue?
  generalize hk : t.kind = k at h
  generalize hcs : t.literal.toList = cs at h hlength
  cases h with
  | integer hs hds => simp only [Numeral.ofToken?_of_isDigits hs hds hcs, Option.map_some]
  | @decimal s ds fs hs hds hfs =>
    have hscale : Decimal.IsScale fs.length := by
      simp only [List.length_append, List.length_cons] at hlength
      refine ⟨?_, ?_⟩ <;> omega
    simp only [Decimal.ofToken?_of_isDigits hs hds hfs hcs hscale, Option.map_some]
  | character hu =>
    have hone := (UnitValues.nil.cons hu)
    rw [List.append_nil] at hone
    simp [Quoted.decode_of_unitValues hone hcs]
  | string hus => simp only [Quoted.decode_of_unitValues hus hcs, Option.map_some]

end HasValue

/-! ## Runs without malformed literals -/

open Rule Grammar

namespace Token

variable {t : Token}

lemma opening_ne_malformed_of_not_isLiteral (h : ¬ t.kind.isLiteral) :
    Opening.ofToken t ≠ .malformed := by
  have hkind : t.kind = .identifier ∨ t.kind = .operator := by
    cases hk : t.kind <;> simp_all [Kind.isLiteral]
  unfold Opening.ofToken
  rcases hkind with hk | hk <;> simp only [hk] <;> split_ifs <;> simp

/-- A literal of a text opens the expression for its value. -/
lemma opening_eq_literal (ht : t.WellSpelled) (hlength : t.literal.length < 2 ^ 63) {v : Literal}
    (h : HasValue t.kind t.literal.toList v) : Opening.ofToken t = .literal v := by
  have hkind : t.kind ≠ .identifier := by
    intro hk
    rw [hk] at h
    cases h
  exact opening_of_literalValue ht hkind (h.literalValue?_eq hlength)

/-- No token of a text is a malformed literal. -/
lemma opening_ne_malformed (ht : t.WellSpelled) (hlength : t.literal.length < 2 ^ 63) :
    Opening.ofToken t ≠ .malformed := by
  by_cases hk : t.kind.isLiteral
  · obtain ⟨v, hv⟩ := HasValue.exists_of_spelling ht hk
    simp [opening_eq_literal ht hlength hv]
  · exact opening_ne_malformed_of_not_isLiteral hk

end Token

/-- A run and itself, on tokens none of which is malformed. -/
def Coupling.ofDecodable : Coupling where
  token t u := t = u ∧ Opening.ofToken t ≠ .malformed
  input i j := i = j ∧ ∀ t ∈ i.ahead, Opening.ofToken t ≠ .malformed
  fault f _ := f.cause ≠ .malformedLiteral
  parted _ := False
  givesUp _ := False
  kind_eq h := congrArg Token.kind h.1
  literal_eq h := congrArg Token.literal h.1
  head := by
    rintro i j ⟨rfl, hi⟩
    exact optionRel_self fun t ht => ⟨rfl, hi t (List.mem_of_mem_head? ht)⟩
  shorter_iff h h' := by rw [h.1, h'.1]
  advance := by
    rintro i j ⟨rfl, hi⟩
    exact .inr ⟨rfl, fun t ht => hi t (List.mem_of_mem_drop ht)⟩
  fault_ahead _ hcause := hcause
  fault_malformed h hmalformed := absurd hmalformed h.2
  parted_advance := id
  token_self h := h.elim

/-- Where no token ahead is malformed, no rule finds a malformed literal. -/
lemma Construct.cause_ne_malformedLiteral {construct : Construct} {limit : Nat}
    {input rest : TokenInput} {fault : Fault}
    (hinput : ∀ t ∈ input.ahead, Opening.ofToken t ≠ .malformed)
    (h : construct.rule limit input = .error fault rest) : fault.cause ≠ .malformedLiteral := by
  have hcouples := Coupling.couples_rule (Coupling.ofDecodable.admits_self limit) construct
  have hmeets := hcouples.meets input input ⟨rfl, hinput⟩
  rw [h] at hmeets
  cases hmeets with
  | error hfault _ => exact hfault
  | parted hrest => exact hrest.elim
  | gaveUp hcause => exact hcause.elim

lemma primary_reads_literal {t : Token} {v : Literal} (h : Opening.ofToken t = .literal v)
    (limit : Nat) (rest : List Token) :
    (Construct.primary.rule limit).Reads [t] (.expression (.literal v)) rest := by
  have hread : (primary (expression limit)).Reads [t] (.literal v) rest := by
    intro stop
    rw [List.singleton_append, primary_cons, h]
  rw [Construct.rule, Construct.ruleOf, map_eq_bind]
  exact hread.map

lemma length_literal_le_of_tokenize {text : String} {ts : List Token}
    (h : tokenize text = .ok ts) : ∀ t ∈ ts, t.literal.length ≤ text.length := by
  intro t ht
  obtain ⟨hend, -⟩ := (Tokenizer.tokens_eq_ok_iff.1 h).partition.slice t ht
  rw [String.length_toList, Token.endOffset] at hend
  omega

/-- Let a text be cut into tokens.  No rule, at no limit and no place among the tokens, finds a
malformed literal.  And each literal of a kind with values has a value, which is what it is read
as. -/
theorem tokenize_decodable (text : String) (hlength : text.length < 2 ^ 63) (ts : List Token)
    (htext : tokenize text = .ok ts) :
    (∀ (construct : Construct) (limit i : Nat) (fault : Fault) (rest : TokenInput),
      construct.rule limit ((TokenInput.ofList ts).advanceBy i) = .error fault rest →
        fault.cause ≠ .malformedLiteral) ∧
    ∀ t ∈ ts, t.kind.isLiteral →
      (∃ v, HasValue t.kind t.literal.toList v) ∧
      ∀ v, HasValue t.kind t.literal.toList v → ∀ limit rest,
        (Construct.primary.rule limit).Reads [t] (.expression (.literal v)) rest := by
  have hspelled := wellSpelled_of_tokenize htext
  have hshort : ∀ t ∈ ts, t.literal.length < 2 ^ 63 := fun t ht =>
    Nat.lt_of_le_of_lt (length_literal_le_of_tokenize htext t ht) hlength
  refine ⟨fun construct limit i fault rest h => ?_,
    fun t ht hkind => ⟨?_, fun v hv limit rest => ?_⟩⟩
  · refine Construct.cause_ne_malformedLiteral (fun t ht => ?_) h
    have hmem : t ∈ ts := List.mem_of_mem_drop ht
    exact Token.opening_ne_malformed (hspelled t hmem) (hshort t hmem)
  · exact HasValue.exists_of_spelling (hspelled t ht) hkind
  · have hopening := Token.opening_eq_literal (hspelled t ht) (hshort t ht) hv
    exact primary_reads_literal hopening limit rest

/-- Signs and zeros in front of digits, zeros after them, and an escaped quote. -/
theorem tokenize_decodable_signs :
    ∃ t u v, tokenize "+007 -0.50 '\\''" = .ok [t, u, v] ∧
      (∀ (construct : Construct) (limit i : Nat) (fault : Fault) (rest : TokenInput),
        construct.rule limit ((TokenInput.ofList [t, u, v]).advanceBy i) = .error fault rest →
          fault.cause ≠ .malformedLiteral) ∧
      (Construct.primary.rule 0).Reads [t] (.expression (.literal (.integer 7))) [] ∧
      (Construct.primary.rule 0).Reads [u] (.expression (.literal (.decimal ⟨-50, 2⟩))) [] ∧
      (Construct.primary.rule 0).Reads [v] (.expression (.literal (.character '\''))) [] := by
  have htext : tokenize "+007 -0.50 '\\''" =
      .ok [⟨.integer, "+007", 0⟩, ⟨.decimal, "-0.50", 5⟩, ⟨.character, "'\\''", 11⟩] := by cbv
  have hinteger : HasValue .integer "+007".toList (.integer 7) :=
    @HasValue.integer ['+'] ['0', '0', '7'] (.inr (.inl rfl)) ⟨by simp, by simp⟩
  have hdecimal : HasValue .decimal "-0.50".toList (.decimal ⟨-50, 2⟩) :=
    @HasValue.decimal ['-'] ['0'] ['5', '0'] (.inr (.inr rfl)) ⟨by simp, by simp⟩
      ⟨by simp, by simp⟩
  have hcharacter : HasValue .character "'\\''".toList (.character '\'') :=
    .character (.escape (by decide))
  obtain ⟨hrules, hliterals⟩ := tokenize_decodable _ (by decide) _ htext
  refine ⟨_, _, _, htext, hrules, ?_, ?_, ?_⟩
  · exact (hliterals _ (by simp) rfl).2 _ hinteger 0 []
  · exact (hliterals _ (by simp) rfl).2 _ hdecimal 0 []
  · exact (hliterals _ (by simp) rfl).2 _ hcharacter 0 []

end LetDef
