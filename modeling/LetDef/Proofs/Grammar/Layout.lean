import LetDef.Program.Reading
import LetDef.Proofs.Grammar.Parallel
import LetDef.Proofs.Lexical.Spacing

/-!
# Layout does not matter

The tokens of a text may be spread over another text, with other blanks before, between and after
them.  The tokens of that text have the same kinds and literals, and only their offsets differ
(`tokenize_spread`).  The rules read offsets for one purpose only, to place a fault.  So the two
token lists are the same program, or are refused for the same cause at places that correspond
(`SamePlace`).

The comparison of the two runs is by the number of tokens that have been read: at each moment the
two inputs have lost equally many.
-/

namespace LetDef

/-- The places of tokens with the same number in two lists, or the ends of both lists. -/
inductive SamePlace (ts us : List Token) : Nat → Nat → Prop where
  | token {k : Nat} {t u : Token} : ts[k]? = some t → us[k]? = some u →
      SamePlace ts us t.offset u.offset
  | stop : SamePlace ts us (TokenInput.ofList ts).endOffset (TokenInput.ofList us).endOffset

/-- The two lists are the same program, or are refused for the same cause at the same place. -/
inductive SameOutcome (ts us : List Token) :
    Except Fault Program → Except Fault Program → Prop where
  | ok (p : Program) : SameOutcome ts us (.ok p) (.ok p)
  | error {f g : Fault} : f.cause = g.cause → SamePlace ts us f.offset g.offset →
      SameOutcome ts us (.error f) (.error g)

namespace SameWords

variable {ts us : List Token}

lemma getElem?_rel (h : SameWords ts us) (n : Nat) :
    Option.Rel (fun t u => ∃ k : Nat, ts[k]? = some t ∧ us[k]? = some u) ts[n]? us[n]? := by
  by_cases hn : n < ts.length
  · have hn' : n < us.length := h.length_eq.symm ▸ hn
    have ht : ts[n]? = some ts[n] := List.getElem?_eq_getElem hn
    have hu : us[n]? = some us[n] := List.getElem?_eq_getElem hn'
    rw [ht, hu]
    exact .some ⟨n, ht, hu⟩
  · have hn' : ts.length ≤ n := Nat.le_of_not_lt hn
    rw [List.getElem?_eq_none hn', List.getElem?_eq_none (h.length_eq.symm ▸ hn')]
    exact .none

/-- After equally many tokens, a fault is placed at tokens with the same number or at both ends. -/
lemma nextOffset_samePlace (h : SameWords ts us) (n : Nat) :
    SamePlace ts us ((TokenInput.ofList ts).advanceBy n).nextOffset
      ((TokenInput.ofList us).advanceBy n).nextOffset := by
  rw [TokenInput.nextOffset_advanceBy, TokenInput.nextOffset_advanceBy]
  have hrel := h.getElem?_rel n
  generalize ts[n]? = o at hrel
  generalize us[n]? = p at hrel
  cases hrel with
  | some hpair =>
    obtain ⟨k, ht, hu⟩ := hpair
    exact .token ht hu
  | none => exact .stop

end SameWords

/-- Runs on two lists of the same words, which have read equally many of them. -/
def Coupling.ofLayouts {ts us : List Token} (hwords : SameWords ts us) : Coupling where
  token t u := ∃ k : Nat, ts[k]? = some t ∧ us[k]? = some u
  input i j := ∃ n, i = (TokenInput.ofList ts).advanceBy n ∧ j = (TokenInput.ofList us).advanceBy n
  fault f g := f.cause = g.cause ∧ SamePlace ts us f.offset g.offset
  parted _ := False
  givesUp _ := False
  kind_eq h := by
    obtain ⟨k, ht, hu⟩ := h
    exact (hwords.word_eq ht hu).1.symm
  literal_eq h := by
    obtain ⟨k, ht, hu⟩ := h
    exact (hwords.word_eq ht hu).2.symm
  head h := by
    obtain ⟨n, rfl, rfl⟩ := h
    simpa only [TokenInput.advanceBy, TokenInput.ofList, List.head?_drop]
      using hwords.getElem?_rel n
  shorter_iff h h' := by
    obtain ⟨n, rfl, rfl⟩ := h
    obtain ⟨m, rfl, rfl⟩ := h'
    simp only [TokenInput.advanceBy, TokenInput.ofList, List.length_drop, hwords.length_eq]
  advance h := by
    obtain ⟨n, rfl, rfl⟩ := h
    refine .inr ⟨n + 1, ?_, ?_⟩ <;>
      simp [TokenInput.advance, TokenInput.advanceBy, List.drop_drop]
  fault_ahead h _ := by
    obtain ⟨n, rfl, rfl⟩ := h
    exact ⟨rfl, hwords.nextOffset_samePlace n⟩
  fault_malformed h _ := by
    obtain ⟨k, ht, hu⟩ := h
    exact ⟨rfl, .token ht hu⟩
  parted_advance := id
  token_self h := h.elim

lemma SameWords.sameOutcome {ts us : List Token} (h : SameWords ts us) (limit : Nat) :
    SameOutcome ts us (Program.ofTokens limit ts) (Program.ofTokens limit us) := by
  let C := Coupling.ofLayouts h
  have hinner := Coupling.couplesInner_innerAt (C.admits_self limit)
  have hmeets := hinner.program.meets (TokenInput.ofList ts) (TokenInput.ofList us) ⟨0, rfl, rfl⟩
  unfold Program.ofTokens
  generalize Grammar.program (Grammar.innerAt limit) (TokenInput.ofList ts) = x at hmeets
  generalize Grammar.program (Grammar.innerAt limit) (TokenInput.ofList us) = y at hmeets
  cases hmeets with
  | ok _ => exact .ok _
  | error hfault _ => exact .error hfault.1 hfault.2
  | parted hrest => exact hrest.elim
  | gaveUp hcause => exact hcause.elim

/-- Let a text be cut into tokens.  In another text they stand with any blanks before and after
them, and with any blanks between them but at least one.  The other text is cut into the same words,
which are where they have been put; and at any limit both lists are the same program, or are refused
for the same cause at the same place.  And each token is what its literal alone is cut into. -/
theorem layout_isIrrelevant (text : String) (ts : List Token) (htext : tokenize text = .ok ts) :
    (∀ (gap : List Char) (gaps : List (List Char)), gaps.length = ts.length →
      (∀ c ∈ gap, c ∈ blanks) → (∀ g ∈ gaps, ∀ c ∈ g, c ∈ blanks) →
      (∀ g ∈ gaps.dropLast, g ≠ []) →
      ∃ us, tokenize (String.ofList (spread gap ts gaps)) = .ok us ∧
        us.length = ts.length ∧
        (∀ (k : Nat) (t u : Token), ts[k]? = some t → us[k]? = some u →
          u.kind = t.kind ∧ u.literal = t.literal ∧
          u.offset = (spread gap (ts.take k) (gaps.take k)).length) ∧
        ∀ limit, SameOutcome ts us (Program.ofTokens limit ts) (Program.ofTokens limit us)) ∧
    ∀ t ∈ ts, tokenize t.literal = .ok [⟨t.kind, t.literal, 0⟩] := by
  refine ⟨fun gap gaps hlength hgap hgaps hapart => ?_, tokenize_literal htext⟩
  obtain ⟨us, hus, hspread⟩ := tokenize_spread htext hlength hgap hgaps hapart
  refine ⟨us, hus, hspread.length_eq, fun k t u ht hu => ?_, fun limit => ?_⟩
  · obtain ⟨hkind, hliteral⟩ := hspread.word_eq ht hu
    exact ⟨hkind, hliteral, by rw [hspread.offset_eq hu, Nat.zero_add]⟩
  · exact hspread.toSameWords.sameOutcome limit

/-- A field without its semicolon, on one line and on four. -/
theorem layout_isIrrelevant_lines :
    ∃ ts us, tokenize "LET x=+5" = .ok ts ∧ tokenize "\nLET\r\nx =\t+5\n" = .ok us ∧
      (∀ limit, SameOutcome ts us (Program.ofTokens limit ts) (Program.ofTokens limit us)) ∧
      tokenize "+5" = .ok [⟨.integer, "+5", 0⟩] := by
  have htext : tokenize "LET x=+5" =
      .ok [⟨.identifier, "LET", 0⟩, ⟨.identifier, "x", 4⟩, ⟨.operator, "=", 5⟩,
        ⟨.integer, "+5", 6⟩] := by cbv
  obtain ⟨hspread, hliteral⟩ := layout_isIrrelevant _ _ htext
  obtain ⟨us, hus, -, -, hsame⟩ :=
    hspread ['\n'] [['\r', '\n'], [' '], ['\t'], ['\n']] rfl (by simp [blanks])
      (by simp [blanks]) (by simp)
  exact ⟨_, us, htext, hus, hsame, hliteral ⟨.integer, "+5", 6⟩ (by simp)⟩

end LetDef
