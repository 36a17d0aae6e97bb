import LetDef.Proofs.Grammar.Stateless

/-!
# Looking several tokens ahead

A parse can be asked whether the tokens ahead fit a list of patterns, and to take them if they do.
There may be more patterns than tokens.  A pattern past the end has no token to be compared with,
and at the end taking a token away changes nothing, so two things could go wrong there: such a
pattern could pass for one that fits, and tokens could be taken although only some patterns fit.

`FitsAt` says what it is for patterns to fit at a place, from the token list and an index alone.
The answer is exactly that (`Parse.peek_standing`), and either all of the tokens are taken or none
of them (`Parse.tryMatch_standing`).  Patterns can be tried in two parts: they fit if both parts do,
the second one behind the first (`fitsAt_append_iff`).  But the first part may fit alone, and then
trying the parts one after the other takes tokens that trying them at once does not.  The main
result `Parse.tryMatch_allOrNothing` says where the two ways agree and where they part.
-/

namespace LetDef

/-! ## Patterns that fit at a place -/

/-- A kind describes the tokens of that kind, whatever their literals are; literals describe the
tokens that are spelled as one of them, whatever their kinds are. -/
inductive Pattern.Describes : Pattern → Token → Prop where
  | kind {k : Token.Kind} {t : Token} : t.kind = k → Describes (.kind k) t
  | literal {text : String} {t : Token} : t.literal = text → Describes (.literal text) t
  | oneOf {texts : List String} {t : Token} : t.literal ∈ texts → Describes (.oneOf texts) t

theorem Pattern.fits_iff_describes {pattern : Pattern} {t : Token} :
    pattern.fits t ↔ pattern.Describes t := by
  cases pattern with
  | kind k => exact Rule.fits_kind_iff.trans ⟨.kind, fun | .kind h => h⟩
  | literal text => exact Rule.fits_literal_iff.trans ⟨.literal, fun | .literal h => h⟩
  | oneOf texts => exact Rule.fits_oneOf_iff.trans ⟨.oneOf, fun | .oneOf h => h⟩

/-- From the index on, there are as many tokens as patterns, or more, and each pattern describes the
token at its place. -/
structure FitsAt (tokens : List Token) (i : Nat) (patterns : List Pattern) : Prop where
  length_le : i + patterns.length ≤ tokens.length
  describes : ∀ j pattern t, patterns[j]? = some pattern → tokens[i + j]? = some t →
    pattern.Describes t

variable {tokens : List Token} {i : Nat} {pattern : Pattern} {ps qs : List Pattern}

lemma fitsAt_nil_iff : FitsAt tokens i [] ↔ i ≤ tokens.length :=
  ⟨fun h => h.length_le, fun h => ⟨h, by simp⟩⟩

lemma fitsAt_cons_iff :
    FitsAt tokens i (pattern :: ps) ↔
      (∃ t, tokens[i]? = some t ∧ pattern.Describes t) ∧ FitsAt tokens (i + 1) ps := by
  constructor
  · intro h
    have hlength : i + (ps.length + 1) ≤ tokens.length := h.length_le
    have hhead : tokens[i]? = some tokens[i] := List.getElem?_eq_getElem (by omega)
    refine ⟨⟨tokens[i], hhead, h.describes 0 pattern _ rfl hhead⟩, by omega, ?_⟩
    intro j q t hq ht
    rw [Nat.add_right_comm] at ht
    exact h.describes (j + 1) q t hq ht
  · rintro ⟨⟨t, hhead, hdescribes⟩, hrest⟩
    have hlength : i + 1 + ps.length ≤ tokens.length := hrest.length_le
    refine ⟨by rw [List.length_cons]; omega, ?_⟩
    rintro (_ | j) q u hq hu
    · obtain rfl := Option.some.inj hq
      obtain rfl := Option.some.inj (hhead.symm.trans hu)
      exact hdescribes
    · exact hrest.describes j q u hq (by rwa [Nat.add_right_comm])

/-- Patterns fit if a first part of them fits and the others fit behind it. -/
theorem fitsAt_append_iff :
    FitsAt tokens i (ps ++ qs) ↔ FitsAt tokens i ps ∧ FitsAt tokens (i + ps.length) qs := by
  induction ps generalizing i with
  | nil =>
    have hplace : FitsAt tokens i qs → FitsAt tokens i [] := fun h =>
      fitsAt_nil_iff.2 ((Nat.le_add_right _ _).trans h.length_le)
    exact (and_iff_right_of_imp hplace).symm
  | cons p ps ih =>
    rw [List.cons_append, fitsAt_cons_iff, ih, fitsAt_cons_iff, and_assoc, List.length_cons,
      Nat.add_assoc i 1, Nat.add_comm 1]

/-- Comparing in step tells whether the patterns fit, also where the tokens run out first. -/
lemma TokenInput.go_drop_iff (hi : i ≤ tokens.length) :
    peek.go ps (tokens.drop i) ↔ FitsAt tokens i ps := by
  induction ps generalizing i with
  | nil => simp [peek.go, fitsAt_nil_iff, hi]
  | cons p ps ih =>
    rw [fitsAt_cons_iff]
    -- past the end there is neither a token to compare with nor one at the index
    rcases Nat.lt_or_ge i tokens.length with hlt | hge
    · rw [List.drop_eq_getElem_cons hlt, peek.go, Bool.and_eq_true, ih hlt,
        Pattern.fits_iff_describes, List.getElem?_eq_getElem hlt]
      simp
    · rw [List.drop_eq_nil_of_le hge, peek.go, List.getElem?_eq_none hge]
      simp

namespace Parse

/-! ## Looking and taking -/

/-- The parse that has come to the index in the token list. -/
def standing (tokens : List Token) (i limit : Nat) : Parse :=
  ⟨(TokenInput.ofList tokens).advanceBy i, limit⟩

variable {limit : Nat}

/-- What is answered is whether the patterns fit. -/
theorem peek_standing (hi : i ≤ tokens.length) (ps : List Pattern) :
    (standing tokens i limit).peek ps ↔ FitsAt tokens i ps :=
  TokenInput.go_drop_iff hi

/-- As many tokens as there are patterns are taken if the patterns fit, and none otherwise. -/
theorem tryMatch_standing (tokens : List Token) (i limit : Nat) (ps : List Pattern) :
    let p := standing tokens i limit
    p.tryMatch ps =
      (p.peek ps, standing tokens (i + if p.peek ps then ps.length else 0) limit) := by
  intro p
  rw [tryMatch_eq, standing, ← TokenInput.advanceBy_advanceBy]
  rfl

lemma tryMatch_of_fitsAt (h : FitsAt tokens i ps) :
    (standing tokens i limit).tryMatch ps = (true, standing tokens (i + ps.length) limit) := by
  have hpeek : (standing tokens i limit).peek ps = true :=
    (peek_standing ((Nat.le_add_right _ _).trans h.length_le) ps).2 h
  rw [tryMatch_standing, hpeek, if_pos rfl]

lemma tryMatch_of_not_fitsAt (hi : i ≤ tokens.length) (h : ¬ FitsAt tokens i ps) :
    (standing tokens i limit).tryMatch ps = (false, standing tokens i limit) := by
  have hpeek : (standing tokens i limit).peek ps = false :=
    Bool.eq_false_iff.2 fun hp => h ((peek_standing hi ps).1 hp)
  rw [tryMatch_standing, hpeek, if_neg Bool.false_ne_true, Nat.add_zero]

/-- Wherever a parse stands in a token list, `peek` tells exactly whether the patterns fit there,
and the parse stays there.  `tryMatch` gives the same answer, and takes as many tokens as there are
patterns if they fit, and none otherwise.  Trying patterns at once succeeds if and only if trying
them in two parts does, one after the other, and leads to the same place then.  If only the first
part fits, trying them at once takes nothing, while the first part by itself takes its tokens. -/
theorem tryMatch_allOrNothing (hi : i ≤ tokens.length) (limit : Nat) (ps qs : List Pattern) :
    let p := standing tokens i limit
    let first := p.tryMatch ps
    let second := first.2.tryMatch qs
    let both := p.tryMatch (ps ++ qs)
    (p.peek ps ↔ FitsAt tokens i ps) ∧ p.operate (.peek ps) = (.matched (p.peek ps), p) ∧
    first = (p.peek ps, standing tokens (i + if p.peek ps then ps.length else 0) limit) ∧
    (both.1 ↔ first.1 ∧ second.1) ∧ (both.1 → both.2 = second.2) ∧
    (first.1 → ¬ second.1 → both.2 = p ∧ second.2 = standing tokens (i + ps.length) limit) := by
  intro p first second both
  refine ⟨peek_standing hi ps, rfl, tryMatch_standing tokens i limit ps, ?_⟩
  by_cases hps : FitsAt tokens i ps
  · have hfirst : first = (true, standing tokens (i + ps.length) limit) := tryMatch_of_fitsAt hps
    by_cases hqs : FitsAt tokens (i + ps.length) qs
    · have hsecond : second = (true, standing tokens (i + ps.length + qs.length) limit) := by
        rw [show second = first.2.tryMatch qs from rfl, hfirst, tryMatch_of_fitsAt hqs]
      have hboth : both = (true, standing tokens (i + (ps ++ qs).length) limit) :=
        tryMatch_of_fitsAt (fitsAt_append_iff.2 ⟨hps, hqs⟩)
      rw [List.length_append, ← Nat.add_assoc] at hboth
      simp [hfirst, hsecond, hboth]
    · have hsecond : second = (false, standing tokens (i + ps.length) limit) := by
        rw [show second = first.2.tryMatch qs from rfl, hfirst,
          tryMatch_of_not_fitsAt hps.length_le hqs]
      have hboth : both = (false, p) :=
        tryMatch_of_not_fitsAt hi fun h => hqs (fitsAt_append_iff.1 h).2
      simp [hfirst, hsecond, hboth]
  · have hfirst : first = (false, p) := tryMatch_of_not_fitsAt hi hps
    have hboth : both = (false, p) :=
      tryMatch_of_not_fitsAt hi fun h => hps (fitsAt_append_iff.1 h).1
    simp [hfirst, hboth]

/-- Behind the first of four tokens, the last of four patterns has no token to fit.  Two of the
patterns fit, and are taken only if they are tried alone. -/
theorem tryMatch_allOrNothing_pastEnd :
    let tokens : List Token := [⟨.identifier, "LET", 0⟩, ⟨.identifier, "x", 4⟩, ⟨.operator, "=", 6⟩,
      ⟨.integer, "1", 8⟩]
    let p := standing tokens 1 defaultLimit
    let ps : List Pattern := [.kind .identifier, .oneOf ["=", ":"]]
    let qs : List Pattern := [.kind .integer, .literal ";"]
    1 ≤ tokens.length ∧ (p.tryMatch ps).1 ∧ ¬ ((p.tryMatch ps).2.tryMatch qs).1 ∧
      ((p.tryMatch ps).2.tryMatch qs).2 = standing tokens 3 defaultLimit ∧
      (p.tryMatch (ps ++ qs)).2 = p := by
  intro tokens p ps qs
  have hi : 1 ≤ tokens.length := by decide
  have hfirst : (p.tryMatch ps).1 = true := by decide
  have hsecond : ¬ ((p.tryMatch ps).2.tryMatch qs).1 := by decide
  obtain ⟨-, -, -, -, -, hfirstOnly⟩ := tryMatch_allOrNothing hi defaultLimit ps qs
  obtain ⟨hboth, hplace⟩ := hfirstOnly hfirst hsecond
  exact ⟨hi, hfirst, hsecond, hplace, hboth⟩

end Parse

/-! ## A single pattern -/

/-- The rules of the grammar read a token by trying a single pattern, and answer with the token that
was ahead if it fits. -/
theorem Rule.optional_eq_tryMatch (pattern : Pattern) (input : TokenInput) :
    Rule.optional pattern input =
      .ok (if (input.tryMatch [pattern]).1 then input.get? 0 else none)
        (input.tryMatch [pattern]).2 := by
  obtain ⟨_ | ⟨t, rest⟩, stop⟩ := input
  · rfl
  · by_cases hfits : pattern.fits t = true
    · simp [optional, TokenInput.tryMatch, TokenInput.peek, TokenInput.peek.go, TokenInput.get?,
        TokenInput.advanceBy, hfits]
    · simp [optional, TokenInput.tryMatch, TokenInput.peek, TokenInput.peek.go, hfits]

end LetDef
