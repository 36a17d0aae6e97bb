import LetDef.Proofs.Grammar.Decoding
import LetDef.Proofs.Printing.RoundTrip

/-!
# Quoted text expresses every text

A literal between quotes is read twice, by two loops that know nothing of each other: a recogniser
finds where it ends, and `Quoted.decode` finds what it denotes.  The decoder alone is described
first.  A literal has a value exactly if it is made of units between two copies of the delimiter,
and there is only one way to take it apart into them (`Quoted.decode_eq_some_iff`,
`UnitValue.units_unique`).

A unit need not be one that a program text can have: a quote or a line break may stand raw before
the decoder but not before the recogniser.  `Quoted.Spells` says which units spell a character for
both.  Every character has one, so every text can be written between quotes, and whatever spelling
is chosen for each of its characters, it is cut out as one token and read as that text.
-/

namespace LetDef

open Rule Grammar

/-! ## Taking a literal apart -/

namespace UnitValue

variable {u v us vs : List Char} {c d : Char}

lemma ne_nil (h : UnitValue u c) : u ≠ [] := by
  cases h <;> exact List.cons_ne_nil _ _

/-- Where a text starts with a unit, it starts with no other one. -/
lemma append_inj (hu : UnitValue u c) (hv : UnitValue v d) (h : u ++ us = v ++ vs) :
    u = v ∧ us = vs := by
  cases hu with
  | escape _ =>
    cases hv with
    | escape _ =>
      obtain ⟨hletter, hrest⟩ := List.cons.inj (List.cons.inj h).2
      exact ⟨by rw [hletter], hrest⟩
    | raw hslash => exact absurd (List.cons.inj h).1.symm hslash
  | raw hslash =>
    cases hv with
    | escape _ => exact absurd (List.cons.inj h).1 hslash
    | raw _ =>
      obtain ⟨hc, hrest⟩ := List.cons.inj h
      exact ⟨by rw [hc], hrest⟩

/-- A text is made of units in one way only. -/
theorem units_unique {us vs : List (List Char)} (hus : ∀ u ∈ us, ∃ c, UnitValue u c)
    (hvs : ∀ v ∈ vs, ∃ c, UnitValue v c) (h : us.flatten = vs.flatten) : us = vs := by
  induction us generalizing vs with
  | nil =>
    cases vs with
    | nil => rfl
    | cons v vs =>
      obtain ⟨c, hv⟩ := hvs v List.mem_cons_self
      exact absurd (List.append_eq_nil_iff.1 h.symm).1 hv.ne_nil
  | cons u us ih =>
    obtain ⟨⟨c, hu⟩, hus⟩ := List.forall_mem_cons.1 hus
    cases vs with
    | nil => exact absurd (List.append_eq_nil_iff.1 h).1 hu.ne_nil
    | cons v vs =>
      obtain ⟨⟨d, hv⟩, htail⟩ := List.forall_mem_cons.1 hvs
      obtain ⟨rfl, hrest⟩ := hu.append_inj hv h
      rw [ih hus htail hrest]

end UnitValue

namespace UnitValues

variable {w cs : List Char}

/-- Units that follow one another, with the borders between them. -/
lemma iff_exists_units :
    UnitValues w cs ↔ ∃ us, List.Forall₂ UnitValue us cs ∧ w = us.flatten := by
  constructor
  · intro h
    induction h with
    | nil => exact ⟨[], .nil, rfl⟩
    | @cons u _ _ _ hu _ ih =>
      obtain ⟨us, hus, rfl⟩ := ih
      exact ⟨u :: us, .cons hu hus, rfl⟩
  · rintro ⟨us, hus, rfl⟩
    induction hus with
    | nil => exact .nil
    | cons hu _ ih => exact .cons hu ih

end UnitValues

namespace Quoted

lemma mem_escapes_of_escapeValue? {letter value : Char} (h : escapeValue? letter = some value) :
    (letter, value) ∈ escapes := by
  unfold escapeValue? at h
  split at h <;> cases h <;> decide

lemma unitValues_of_decodeUnits {w cs : List Char} (h : decodeUnits w = some cs) :
    UnitValues w cs := by
  fun_induction decodeUnits w generalizing cs with
  | case1 =>
    obtain rfl := Option.some.inj h
    exact .nil
  | case2 => exact absurd h (by simp)
  | case3 letter rest ih =>
    obtain ⟨value, hvalue, h⟩ := Option.bind_eq_some_iff.1 h
    obtain ⟨values, hvalues, h⟩ := Option.bind_eq_some_iff.1 h
    obtain rfl := Option.some.inj h
    exact (ih hvalues).cons (.escape (mem_escapes_of_escapeValue? hvalue))
  | case4 c rest hslash ih =>
    obtain ⟨values, hvalues, h⟩ := Option.bind_eq_some_iff.1 h
    obtain rfl := Option.some.inj h
    exact (ih hvalues).cons (.raw hslash)

lemma between?_eq_some_iff {delimiter : Char} {cs inner : List Char} :
    between? delimiter cs = some inner ↔ cs = delimiter :: (inner ++ [delimiter]) := by
  constructor
  · intro h
    rcases cs with _ | ⟨c, rest⟩
    · exact absurd h (by simp [between?])
    rw [between?] at h
    split at h
    · next hends =>
      obtain ⟨rfl, hlast⟩ := hends
      obtain ⟨front, rfl⟩ := List.getLast?_eq_some_iff.1 hlast
      obtain rfl : front = inner := by simpa using h
      rfl
    · exact absurd h (by simp)
  · rintro rfl
    simp [between?]

/-- A literal has a value exactly if it is made of units between two delimiters, and the units
stand for the characters of the value. -/
theorem decode_eq_some_iff {delimiter : Char} {literal value : String} :
    decode delimiter literal = some value ↔
      ∃ us, List.Forall₂ UnitValue us value.toList ∧
        literal.toList = delimiter :: (us.flatten ++ [delimiter]) := by
  constructor
  · intro h
    obtain ⟨inner, hinner, h⟩ := Option.bind_eq_some_iff.1 h
    obtain ⟨values, hvalues, h⟩ := Option.bind_eq_some_iff.1 h
    obtain rfl := Option.some.inj h
    obtain ⟨us, hus, rfl⟩ := UnitValues.iff_exists_units.1 (unitValues_of_decodeUnits hvalues)
    refine ⟨us, ?_, between?_eq_some_iff.1 hinner⟩
    rwa [String.toList_ofList]
  · rintro ⟨us, hus, hliteral⟩
    have hvalues := UnitValues.iff_exists_units.2 ⟨us, hus, rfl⟩
    rw [decode_of_unitValues hvalues hliteral, String.ofList_toList]

/-! ## Spellings for both readers -/

/-- The unit spells the character where `quote` ends the literal: it is an escape, or the character
itself unless that would end the literal or the line. -/
inductive Spells (quote : Char) : List Char → Char → Prop where
  | escape {letter c : Char} : (letter, c) ∈ escapes → Spells quote ['\\', letter] c
  | raw {c : Char} : c ∉ [quote, '\\', '\n', '\r'] → Spells quote [c] c

section Spelling

variable {quote c : Char} {u : List Char}

lemma Spells.unitValue (h : Spells quote u c) : UnitValue u c := by
  cases h with
  | escape hmem => exact .escape hmem
  | raw hc => exact .raw fun hslash => hc (by simp [hslash])

lemma Spells.quotedUnit (h : Spells quote u c) : QuotedUnit quote u := by
  cases h with
  | escape hmem =>
    exact .escape (isEscapeLetter_iff.1 (by simp [isEscapeLetter, escapeValue?_of_mem hmem]))
  | raw hc =>
    simp only [List.mem_cons, List.not_mem_nil, or_false, not_or] at hc
    exact .raw hc.1 hc.2.1 hc.2.2.1 hc.2.2.2

theorem exists_spells (hquote : quote = '\'' ∨ quote = '"') (c : Char) : ∃ u, Spells quote u c := by
  by_cases hc : c ∈ [quote, '\\', '\n', '\r']
  · simp only [List.mem_cons, List.not_mem_nil, or_false] at hc
    rcases hc with rfl | rfl | rfl | rfl
    · refine ⟨['\\', c], .escape ?_⟩
      rcases hquote with rfl | rfl <;> decide
    · exact ⟨['\\', '\\'], .escape (by decide)⟩
    · exact ⟨['\\', 'n'], .escape (by decide)⟩
    · exact ⟨['\\', 'r'], .escape (by decide)⟩
  · exact ⟨[c], .raw hc⟩

lemma quotedUnits_of_spells {us : List (List Char)} {cs : List Char}
    (h : List.Forall₂ (Spells quote) us cs) : QuotedUnits quote us.flatten := by
  induction h with
  | nil => exact .nil
  | cons hu _ ih => exact .cons hu.quotedUnit ih

end Spelling

end Quoted

/-! ## From the text to the value -/

/-- A token that denotes a value is a whole expression by itself. -/
lemma Denotes.read_expression {t : Token} {v : Literal} (h : Denotes t v) (ht : t.WellSpelled)
    (limit : Nat) :
    ((Parse.ofList [t]).withLimit (limit + 1)).read .expression =
      (.ok (.expression (.literal v)), ⟨⟨[], t.endOffset⟩, limit + 1⟩) := by
  have hderives : Derives [t] (.expression .whole (.literal v)) :=
    (Derives.literal h).loosen_primary .whole
  have hreads : (expression (limit + 1)).Reads [t] (.literal v) [] :=
    expression_reads (isRead_of_derives hderives (List.forall_mem_singleton.2 ht))
      (Nat.succ_le_succ (Nat.zero_le limit)) (by simp [StartsOutside])
  have hrule : (Construct.expression.rule (limit + 1)).Reads [t] (.expression (.literal v)) [] := by
    rw [Construct.rule, Construct.ruleOf, map_eq_bind]
    exact hreads.map
  have hrun := hrule t.endOffset
  simp only [Parse.read, Parse.withLimit, Parse.ofList, TokenInput.ofList, List.getLast?_singleton,
    Option.map_some, Option.getD_some]
  rw [List.append_nil] at hrun
  rw [hrun]

/-- A quoted text that some units spell is one token, and it is read as what they spell. -/
structure ReadsAlone (text : String) (kind : Token.Kind) (value : Literal) : Prop where
  /-- The text is cut into one token. -/
  token : tokenize text = .ok [⟨kind, text, 0⟩]
  /-- The token is a whole expression at every limit that admits one. -/
  expression : ∀ limit, 0 < limit →
    ((Parse.ofList [⟨kind, text, 0⟩]).withLimit limit).read .expression =
      (.ok (.expression (.literal value)), ⟨⟨[], text.length⟩, limit⟩)

lemma ReadsAlone.of_denotes {text : String} {kind : Token.Kind} {value : Literal}
    (h : Spelling kind text.toList) (hkind : kind ≠ .operator)
    (hvalue : Denotes ⟨kind, text, 0⟩ value) : ReadsAlone text kind value where
  token := tokenize_of_spelling h (isWord_of_spelling h hkind).2
  expression limit hpos := by
    obtain ⟨limit, rfl⟩ := Nat.exists_eq_succ_of_ne_zero (Nat.ne_of_gt hpos)
    have hread := hvalue.read_expression h limit
    rwa [Token.endOffset, Nat.zero_add] at hread

namespace Quoted

/-- The literals that have a value are those made of units, in one way each.  Every character has a
spelling by a unit for each of the two quotes.  And a text between double quotes, or a character
between single quotes, whatever spellings are chosen, is one token that is read as that text or
that character. -/
theorem quoted_expressesAll :
    (∀ delimiter literal value, decode delimiter literal = some value ↔
      ∃ us, List.Forall₂ UnitValue us value.toList ∧
        literal.toList = delimiter :: (us.flatten ++ [delimiter])) ∧
    (∀ (delimiter : Char) (us vs : List (List Char)), (∀ u ∈ us, ∃ c, UnitValue u c) →
      (∀ v ∈ vs, ∃ c, UnitValue v c) →
      delimiter :: (us.flatten ++ [delimiter]) = delimiter :: (vs.flatten ++ [delimiter]) →
      us = vs) ∧
    (∀ c, (∃ u, Spells '\'' u c) ∧ ∃ u, Spells '"' u c) ∧
    (∀ value us, List.Forall₂ (Spells '"') us value.toList →
      ReadsAlone (String.ofList ('"' :: (us.flatten ++ ['"']))) .string (.string value)) ∧
    ∀ c u, Spells '\'' u c →
      ReadsAlone (String.ofList ('\'' :: (u ++ ['\'']))) .character (.character c) := by
  refine ⟨fun _ _ _ => decode_eq_some_iff, fun delimiter us vs hus hvs h => ?_,
    fun c => ⟨exists_spells (.inl rfl) c, exists_spells (.inr rfl) c⟩, fun value us hus => ?_,
    fun c u hu => ?_⟩
  · exact UnitValue.units_unique hus hvs (List.append_cancel_right (List.cons.inj h).2)
  · have hvalues : List.Forall₂ UnitValue us value.toList := hus.imp fun _ _ hu => hu.unitValue
    refine .of_denotes ?_ (by decide) (.string rfl ?_)
    · rw [String.toList_ofList]
      exact .string (quotedUnits_of_spells hus)
    · exact decode_eq_some_iff.2 ⟨us, hvalues, String.toList_ofList⟩
  · refine .of_denotes ?_ (by decide) (.character rfl ?_)
    · rw [String.toList_ofList]
      exact .character hu.quotedUnit
    · refine decode_eq_some_iff.2 ⟨[u], ?_, ?_⟩
      · rw [String.toList_ofList]
        exact .cons hu.unitValue .nil
      · rw [String.toList_ofList, List.flatten_singleton]

/-- A backslash and a quote at the end of a string, a tab in both of its spellings, the empty
string, and the single quote as a character. -/
theorem quoted_expressesAll_escapes :
    decode '\'' "'\\n'" = some "\n" ∧
    ReadsAlone "\"\t\\t\\\\\\\"\"" .string (.string "\t\t\\\"") ∧
    ReadsAlone "\"\"" .string (.string "") ∧
    ReadsAlone "'\\''" .character (.character '\'') := by
  obtain ⟨hdecode, -, -, hstring, hcharacter⟩ := quoted_expressesAll
  refine ⟨(hdecode _ _ _).2 ⟨[['\\', 'n']], .cons (.escape (by decide)) .nil, rfl⟩,
    hstring _ [['\t'], ['\\', 't'], ['\\', '\\'], ['\\', '"']] ?_, hstring "" [] .nil,
    hcharacter '\'' ['\\', '\''] (.escape (by decide))⟩
  exact .cons (.raw (by decide)) (.cons (.escape (by decide)) (.cons (.escape (by decide))
    (.cons (.escape (by decide)) .nil)))

end Quoted

end LetDef
