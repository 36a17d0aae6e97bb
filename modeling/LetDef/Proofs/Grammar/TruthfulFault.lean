import LetDef.Program.Reading
import LetDef.Proofs.Grammar.Passage
import LetDef.Proofs.Lexical.Partition

/-!
# Faults tell the truth

The rules of the grammar raise faults at some twenty-five places, each after another way through the
tokens.  Every rule gives account of its runs (`Passage.Accounts`), and the lemmas here go rule by
rule: each of them closes the parentheses that it opens, and a block stops only where it is told to,
so that an `END` is missed nowhere but at the end of the list.

`fault_isTruthful` reads this off for every construct, limit and start.  A fault is placed at the
token that is next, or at a malformed literal just before it, and what it says of this token and of
those that have been read is the case.
-/

namespace LetDef

open Grammar

namespace Passage

variable {p : Passage} {α : Type} {depth limit : Nat} {t : Token}

/-! ## Expressions -/

/-- Only an operator can be a parenthesis, and as an operator it opens a group or nothing. -/
lemma neutral_of_opening (ht : t.WellSpelled) (hgroup : Opening.ofToken t ≠ .group)
    (hnothing : Opening.ofToken t ≠ .nothing) : t.literal ≠ "(" ∧ t.literal ≠ ")" := by
  refine ⟨fun hleft => hgroup (opening_of_paren ht hleft), fun hright => hnothing ?_⟩
  have hkind : t.kind = .operator := ht.kind_of_mark (by simp [hright])
  simp [Opening.ofToken, hkind, hright]

/-- What opens no expression is an operator, and no opening parenthesis. -/
lemma operator_of_opening_nothing (h : Opening.ofToken t = .nothing) :
    t.kind = .operator ∧ t.literal ≠ "(" := by
  unfold Opening.ofToken at h
  split at h
  · simp at h
  split at h
  · simp at h
  split at h
  · simp at h
  cases hkind : t.kind with
  | operator => simpa [hkind] using h
  | identifier =>
    rw [hkind] at h
    simp only at h
    split at h <;> simp at h
  | _ =>
    rw [hkind] at h
    simp only at h
    split at h <;> simp at h

namespace Balanced

variable {nested : Rule Expr}

/-- A primary expression closes what it opens, and where it fails the fault says what is the matter:
each opening of the first token is a case of its own. -/
lemma primary (h : p.Balanced nested) : p.Balanced (primary nested) := by
  intro depth
  refine accounts_peek.bind fun o => ?_
  cases o with
  | none =>
    refine .fail (by simp) fun i hi _ => ?_
    simp [hi.1, Cause.Describes]
  | some t =>
    cases hopening : Opening.ofToken t with
    | literal value =>
      simp only [hopening]
      refine accounts_skip.bind fun _ => .pure _ fun i hi => open_of_neutral hi fun ht => ?_
      exact neutral_of_opening ht (by simp [hopening]) (by simp [hopening])
    | malformed =>
      -- The token has been taken away when the fault is raised, so that this is placed behind.
      simp only [hopening]
      refine accounts_skip.bind fun _ i _ hlength hi => ?_
      have hlast := getLast?_read hi
      obtain ⟨k, hk, hstart, ht, -⟩ := hi
      exact ⟨i, le_rfl, hlength, rfl, fun hcause => absurd rfl hcause,
        fun _ => ⟨k, t, hk, hstart, ht, rfl⟩, fun _ => ⟨t, hlast, hopening⟩⟩
    | group =>
      simp only [hopening]
      have hleft : t.literal = "(" := by
        simpa [hopening, Opening.Describes] using opening_describes t
      refine (accounts_skip.post fun _ i hi => open_of_left hi hleft).bind fun _ => ?_
      exact (h (depth + 1)).bind fun inner => accounts_closingParen.bind fun _ =>
        .pure _ fun _ => id
    | name =>
      simp only [hopening]
      refine (accounts_skip.post fun _ i hi => open_of_neutral hi fun ht => ?_).bind fun _ => ?_
      · exact neutral_of_opening ht (by simp [hopening]) (by simp [hopening])
      · refine (h.arguments depth).bind fun o => ?_
        cases o with
        | none => exact .pure _ fun _ => id
        | some es => exact .pure _ fun _ => id
    | nothing =>
      simp only [hopening]
      refine .fail (by simp) fun i hi _ => ?_
      simpa [hi.1, Cause.Describes] using operator_of_opening_nothing hopening

/-- The point has just been read where a name is missing. -/
lemma secondary (h : p.Balanced nested) : p.Balanced (secondary nested) := by
  refine h.primary.bind fun receiver => ?_
  have hselections : p.Balanced (Rule.manyFrom "." (selection nested)) := by
    intro depth
    refine (accounts_many fun point hpoint => ?_).post fun _ _ => And.right
    have hliteral := Rule.fits_literal_iff.1 hpoint
    have hmissed : ∀ i, p.After (p.Open depth) point i →
        (∀ t ∈ p.next i, ¬ (Pattern.kind .identifier).fits t) → p.Spelled →
        Cause.missingIdentifier.Describes (p.read i) (p.next i) := fun i hi hother _ =>
      ⟨⟨point, getLast?_read hi, hliteral⟩, fun t ht heq => hother t ht (Rule.fits_kind_iff.2 heq)⟩
    refine accounts_skip.bind fun _ => (accounts_expect (by simp) hmissed).bind fun name => ?_
    refine ((h.arguments depth).pre fun i hi => ?_).bind fun o => ?_
    · have hpoint' := hi.2.mono fun _ hj => open_of_neutral hj fun _ => by simp [hliteral]
      exact open_of_neutral hpoint' (neutral_of_identifier (Rule.fits_kind_iff.1 hi.1))
    · cases o with
      | none => exact .pure _ fun _ => id
      | some es => exact .pure _ fun _ => id
  exact hselections.bind fun selections => .pure _

/-- Operators are no parentheses, so operands side by side are balanced. -/
lemma leftNested {operators : List String} {operand : Rule Expr} (h : p.Balanced operand)
    (hoperators : "(" ∉ operators ∧ ")" ∉ operators) :
    p.Balanced (leftNested operators operand) := by
  refine h.bind fun first => ?_
  have hoperations : p.Balanced (Rule.many (Pattern.oneOf operators).fits (operation operand)) := by
    intro depth
    refine (accounts_many fun operator hoperator => ?_).post fun _ _ => And.right
    have hmem := Rule.fits_oneOf_iff.1 hoperator
    refine (accounts_next.post fun _ i hi => open_of_neutral hi fun _ => ?_).bind fun t =>
      (h depth).bind fun right => .pure _ fun _ => id
    exact ⟨fun heq => hoperators.1 (heq ▸ hmem), fun heq => hoperators.2 (heq ▸ hmem)⟩
  exact hoperations.bind fun rest => .pure _

lemma multiplicative (h : p.Balanced nested) : p.Balanced (multiplicative nested) :=
  h.secondary.leftNested (by decide)

lemma additive (h : p.Balanced nested) : p.Balanced (additive nested) :=
  h.multiplicative.leftNested (by decide)

lemma equality (h : p.Balanced nested) : p.Balanced (equality nested) :=
  h.additive.leftNested (by decide)

lemma logical (h : p.Balanced nested) : p.Balanced (logical nested) :=
  h.equality.leftNested (by decide)

end Balanced

/-- Expressions are balanced, by induction on the limit; with none left there is no run. -/
theorem balanced_expression (limit : Nat) : p.Balanced (expression limit) := by
  induction limit with
  | zero => exact .atLimit fun _ => rfl
  | succ limit ih => exact ih.logical

/-! ## Statements -/

/-- The rules for what a statement contains close what they open, and a block stops before a token
that ends it, or at the end of the list. -/
structure BalancedInner (p : Passage) (inner : Inner Rule) : Prop where
  expression : p.Balanced inner.expression
  block : ∀ terminator depth, p.Accounts (p.Open depth) (inner.block terminator) fun _ i =>
    (∀ t ∈ p.next i, terminator.fits t) ∧ p.Open depth i

/-- A binding is balanced if its value is. -/
lemma Balanced.letBinding {nested : Rule Expr} (h : p.Balanced nested) :
    p.Balanced (letBinding nested) := by
  have hbinding : p.Balanced (binding nested) :=
    Balanced.identifier.bind fun name => (Balanced.identifier.introduced (by decide)).bind
      fun typeName => (h.introduced (by decide)).bind fun value => .pure _
  exact (Balanced.word (by decide)).bind fun _ => hbinding.bind fun _ =>
    Balanced.semicolon.bind fun _ => .pure _

/-- Where nothing but `END` can stand, an `END` is missed only at the end of the list. -/
lemma accounts_end :
    p.Accounts (fun i => (∀ t ∈ p.next i, t.literal = "END") ∧ p.Open depth i) (Rule.word "END")
      fun _ => p.Open depth := by
  refine (accounts_word fun _ _ hi => hi.1).post ?_
  rintro _ j ⟨t, ht, hafter⟩
  exact open_of_neutral (hafter.mono fun _ => And.right) fun _ => by simp [ht]

namespace BalancedInner

variable {inner : Inner Rule}

/-- Behind a block that runs up to `END`, an `END` is ahead or nothing is. -/
lemma blockToEnd (h : p.BalancedInner inner) (depth : Nat) :
    p.Accounts (p.Open depth) (inner.block (.literal "END")) fun _ i =>
      (∀ t ∈ p.next i, t.literal = "END") ∧ p.Open depth i :=
  (h.block (.literal "END") depth).post fun _ _ hi =>
    ⟨fun t ht => Rule.fits_literal_iff.1 (hi.1 t ht), hi.2⟩

lemma declaration (h : p.BalancedInner inner) : p.Balanced (declaration inner) :=
  h.expression.letBinding.bind fun _ => .pure _

/-- A block that has begun with its word ends with `END`, and where `END` is missing, nothing is
left. -/
lemma enclosed (h : p.BalancedInner inner) : p.Balanced (enclosed inner) :=
  (Balanced.word (by decide)).bind fun _ depth =>
    (h.blockToEnd depth).bind fun body => accounts_end.bind fun _ => .pure _ fun _ => id

lemma conditional (h : p.BalancedInner inner) : p.Balanced (conditional inner) := by
  refine (Balanced.word (by decide)).bind fun _ => h.expression.bind fun condition =>
    (Balanced.word (by decide)).bind fun _ depth => ?_
  refine (h.block (.oneOf ["ELSE", "END"]) depth).bind fun thenBlock => ?_
  -- The first block stops before an ELSE or an END, and where there is no ELSE, it is an END.
  have helse : p.Accounts
      (fun i => (∀ t ∈ p.next i, (Pattern.oneOf ["ELSE", "END"]).fits t) ∧ p.Open depth i)
      (Rule.introduced "ELSE" (inner.block (.literal "END"))) fun _ i =>
        (∀ t ∈ p.next i, t.literal = "END") ∧ p.Open depth i := by
    refine accounts_introduced ((h.blockToEnd depth).pre ?_) fun i hother hi => ⟨?_, hi.2⟩
    · rintro i ⟨t, ht, hafter⟩
      exact open_of_neutral (hafter.mono fun _ => And.right) fun _ => by simp [ht]
    · intro t ht
      have hmem := Rule.fits_oneOf_iff.1 (hi.1 t ht)
      simpa [hother t ht] using hmem
  exact helse.bind fun elseBlock => accounts_end.bind fun _ => .pure _ fun _ => id

lemma forEach (h : p.BalancedInner inner) : p.Balanced (forEach inner) :=
  (Balanced.word (by decide)).bind fun _ => Balanced.identifier.bind fun name =>
    (Balanced.word (by decide)).bind fun _ => h.expression.bind fun value =>
      h.enclosed.bind fun body => .pure _

lemma whileLoop (h : p.BalancedInner inner) : p.Balanced (whileLoop inner) :=
  (Balanced.word (by decide)).bind fun _ => h.expression.bind fun condition =>
    h.enclosed.bind fun body => .pure _

lemma result (h : p.BalancedInner inner) : p.Balanced (result inner) :=
  (Balanced.word (by decide)).bind fun _ => (h.expression.unlessSeen ";").bind fun value =>
    Balanced.semicolon.bind fun _ => .pure _

lemma evaluation (h : p.BalancedInner inner) : p.Balanced (evaluation inner) := by
  refine h.expression.bind fun receiver => (h.expression.introduced (by decide)).bind fun o => ?_
  cases o with
  | none => exact Balanced.semicolon.bind fun _ => .pure _
  | some value => exact Balanced.semicolon.bind fun _ => .pure _

/-- A statement of any form is balanced; the form has been decided on by the token that is ahead. -/
theorem statement (h : p.BalancedInner inner) : p.Balanced (statement inner) := by
  intro depth i hstart hlength hopen
  rw [statement_eq]
  cases Form.ofToken? (p.input i).ahead.head? with
  | declaration => exact h.declaration depth i hstart hlength hopen
  | conditional => exact h.conditional depth i hstart hlength hopen
  | forEach => exact h.forEach depth i hstart hlength hopen
  | whileLoop => exact h.whileLoop depth i hstart hlength hopen
  | result => exact h.result depth i hstart hlength hopen
  | evaluation => exact h.evaluation depth i hstart hlength hopen

end BalancedInner

/-- Blocks are balanced at every limit, with what their statements contain. -/
theorem balancedInner_innerAt (limit : Nat) : p.BalancedInner (innerAt limit) := by
  refine ⟨balanced_expression limit, ?_⟩
  induction limit with
  | zero =>
    intro terminator depth
    exact .fail (by simp) fun _ _ _ => trivial
  | succ limit ih =>
    intro terminator depth
    have hinner : p.BalancedInner (innerAt limit) := ⟨balanced_expression limit, ih⟩
    have hyields : (Grammar.statement (innerAt limit)).Yields fun ts _ => ts ≠ [] :=
      (innerAt_sound limit).statement_yields.mono fun _ _ hs => hs.1.statement_ne_nil
    refine (accounts_many fun _ _ => (hinner.statement depth).pre fun _ => And.right).post
      fun _ i hi => ⟨fun t ht => ?_, hi.2⟩
    simpa using hi.1 hyields t ht

/-! ## Methods and programs -/

lemma balanced_method {inner : Inner Rule} (h : p.BalancedInner inner) :
    p.Balanced (method inner) := by
  refine (Balanced.word (by decide)).bind fun _ => Balanced.identifier.bind fun name depth => ?_
  have hleft : p.Accounts (p.Open depth) (Rule.word "(") fun _ => p.Open (depth + 1) := by
    refine (accounts_word fun h => absurd h (by decide)).post ?_
    rintro _ i ⟨t, ht, hafter⟩
    exact open_of_left hafter ht
  exact hleft.bind fun _ => (Balanced.identifier.parenthesized depth).bind fun parameters =>
    (h.enclosed depth).bind fun body => .pure _ fun _ => id

/-- After its methods, a program ends where no further one begins. -/
lemma balanced_program (limit : Nat) : p.Balanced (program (innerAt limit)) := by
  have hinner : p.BalancedInner (innerAt limit) := balancedInner_innerAt limit
  refine hinner.expression.letBinding.many.bind fun fields depth => ?_
  have hyields : (method (innerAt limit)).Yields fun ts _ => ts ≠ [] :=
    (method_yields limit).mono fun _ _ hm => hm.1.method_ne_nil
  refine (accounts_many fun _ _ => (balanced_method hinner depth).pre fun _ => And.right).bind
    fun methods => ?_
  have hend : p.Accounts (fun i => (∀ t ∈ p.next i, t.literal ≠ "DEF") ∧ p.Open depth i)
      endOfProgram fun _ => p.Open depth := by
    refine accounts_peek.bind fun o => ?_
    cases o with
    | none => exact .pure () fun _ hi => hi.2.2
    | some t =>
      refine .fail (by simp) fun i hi _ => ⟨.inr ⟨"DEF", rfl, hi.2.1⟩, fun hwhat => ?_⟩
      simp at hwhat
  refine (hend.pre fun i hi => ⟨fun t ht heq => ?_, hi.2⟩).bind fun _ => .pure _ fun _ => id
  exact hi.1 hyields t ht (Rule.fits_literal_iff.2 heq)

/-- Every construct is balanced and fails truthfully, at every limit. -/
theorem balanced_rule (construct : Construct) (limit : Nat) :
    p.Balanced (construct.rule limit) := by
  have hinner : p.BalancedInner (innerAt limit) := balancedInner_innerAt limit
  have hexpression : p.Balanced (expression limit) := balanced_expression limit
  cases construct with
  | program => exact (balanced_program limit).map _
  | field => exact hexpression.letBinding.map _
  | method => exact (balanced_method hinner).map _
  | statement => exact hinner.statement.map _
  | declaration => exact hinner.declaration.map _
  | conditional => exact hinner.conditional.map _
  | forEach => exact hinner.forEach.map _
  | whileLoop => exact hinner.whileLoop.map _
  | result => exact hinner.result.map _
  | expression => exact hexpression.map _
  | logical => exact hexpression.logical.map _
  | equality => exact hexpression.equality.map _
  | additive => exact hexpression.additive.map _
  | multiplicative => exact hexpression.multiplicative.map _
  | secondary => exact hexpression.secondary.map _
  | primary => exact hexpression.primary.map _

end Passage

/-! ## Faults of a construct -/

/-- The tokens of a text start in it, and the last one ends in it. -/
lemma offset_le_of_tokenize {text : String} {ts : List Token} (h : tokenize text = .ok ts) :
    (∀ t ∈ ts, t.offset ≤ text.length) ∧ (TokenInput.ofList ts).endOffset ≤ text.length := by
  have hpartition := (Tokenizer.tokens_eq_ok_iff.1 h).partition
  have hend : ∀ t ∈ ts, t.endOffset ≤ text.length := fun t ht => by
    rw [← String.length_toList]
    exact (hpartition.slice t ht).1
  refine ⟨fun t ht => (Nat.le_add_right _ _).trans (hend t ht), ?_⟩
  rw [TokenInput.ofList]
  cases hlast : ts.getLast? with
  | none => exact Nat.zero_le _
  | some t => exact hend t (List.mem_of_getLast? hlast)

/-- Let a construct be refused that starts anywhere in a token list, and stop before the token with
the number `i`.  The fault is placed at this token, or at the end of the list if there is none; only
a malformed literal is the token before, which has been read last.  If the list is that of a text,
this is where a token starts or the last one ends, it lies in the text or at its end, and the cause
describes truthfully the tokens that have been read and the one that is next. -/
theorem fault_isTruthful (ts : List Token) (construct : Construct) (limit start : Nat)
    (hstart : start ≤ ts.length) (fault : Fault) (output : TokenInput)
    (h : construct.rule limit ((TokenInput.ofList ts).advanceBy start) = .error fault output) :
    ∃ i, start ≤ i ∧ i ≤ ts.length ∧ output = (TokenInput.ofList ts).advanceBy i ∧
      (fault.cause ≠ .malformedLiteral →
        fault.offset = (ts[i]?.map Token.offset).getD (TokenInput.ofList ts).endOffset) ∧
      (fault.cause = .malformedLiteral →
        ∃ k t, i = k + 1 ∧ start ≤ k ∧ ts[k]? = some t ∧ fault.offset = t.offset) ∧
      ∀ text, tokenize text = .ok ts →
        ((∃ t ∈ ts, fault.offset = t.offset) ∨ fault.offset = (TokenInput.ofList ts).endOffset) ∧
        fault.offset ≤ text.length ∧
        fault.cause.Describes ((ts.take i).drop start) ts[i]? := by
  let p : Passage := ⟨ts, start⟩
  have haccount := Passage.balanced_rule (p := p) construct limit 0 start le_rfl hstart
    Passage.open_start
  rw [show p.input start = (TokenInput.ofList ts).advanceBy start from rfl, h] at haccount
  obtain ⟨i, hi, hlength, rfl, htruthful⟩ := haccount
  have hahead : fault.cause ≠ .malformedLiteral →
      fault.offset = (ts[i]?.map Token.offset).getD (TokenInput.ofList ts).endOffset :=
    fun hcause => (htruthful.ahead hcause).trans (TokenInput.nextOffset_advanceBy ts i)
  refine ⟨i, hi, hlength, rfl, hahead, htruthful.behind, fun text htext => ?_⟩
  have hplace : (∃ t ∈ ts, fault.offset = t.offset) ∨
      fault.offset = (TokenInput.ofList ts).endOffset := by
    by_cases hcause : fault.cause = .malformedLiteral
    · obtain ⟨k, t, -, -, ht, hoffset⟩ := htruthful.behind hcause
      exact .inl ⟨t, List.mem_of_getElem? ht, hoffset⟩
    · rw [hahead hcause]
      cases hnext : ts[i]? with
      | none => exact .inr rfl
      | some t => exact .inl ⟨t, List.mem_of_getElem? hnext, rfl⟩
  obtain ⟨hoffsets, hend⟩ := offset_le_of_tokenize htext
  refine ⟨hplace, ?_, htruthful.describes (wellSpelled_of_tokenize htext)⟩
  rcases hplace with ⟨t, ht, hoffset⟩ | hoffset
  · exact hoffset ▸ hoffsets t ht
  · exact hoffset ▸ hend

/-- The second statement of a text leaves a parenthesis open, and not the one that is closed. -/
theorem fault_isTruthful_argument :
    ∃ ts output, tokenize "g; f((a), b;" = .ok ts ∧ 2 ≤ ts.length ∧
      Construct.statement.rule 5 ((TokenInput.ofList ts).advanceBy 2) =
        .error ⟨.missingClosingParen, 11⟩ output ∧
      output.ahead = ts.drop 9 ∧ LeavesOpen ((ts.take 9).drop 2) ∧
      ∀ t ∈ ts[9]?, t.literal ≠ ")" := by
  have htext : tokenize "g; f((a), b;" =
      .ok [⟨.identifier, "g", 0⟩, ⟨.operator, ";", 1⟩, ⟨.identifier, "f", 3⟩,
        ⟨.operator, "(", 4⟩, ⟨.operator, "(", 5⟩, ⟨.identifier, "a", 6⟩, ⟨.operator, ")", 7⟩,
        ⟨.operator, ",", 8⟩, ⟨.identifier, "b", 10⟩, ⟨.operator, ";", 11⟩] := by cbv
  have hrefused : ∀ ts, tokenize "g; f((a), b;" = .ok ts →
      Construct.statement.rule 5 ((TokenInput.ofList ts).advanceBy 2) =
        .error ⟨.missingClosingParen, 11⟩ ⟨ts.drop 9, 12⟩ ∧ ts.length = 10 := by
    intro ts hts
    obtain rfl := Except.ok.inj (htext.symm.trans hts)
    exact ⟨by cbv, rfl⟩
  obtain ⟨ts, hts⟩ : ∃ ts, tokenize "g; f((a), b;" = .ok ts := ⟨_, htext⟩
  obtain ⟨hrule, hlength⟩ := hrefused ts hts
  have hstart : 2 ≤ ts.length := by omega
  obtain ⟨i, -, hi, houtput, -, -, htruthful⟩ :=
    fault_isTruthful ts .statement 5 2 hstart _ _ hrule
  obtain rfl : i = 9 := by
    have hcount := congrArg (List.length ∘ TokenInput.ahead) houtput
    simp only [Function.comp, TokenInput.advanceBy, TokenInput.ofList, List.length_drop] at hcount
    omega
  obtain ⟨-, -, hnext, hopen⟩ := htruthful _ hts
  exact ⟨ts, _, hts, hstart, hrule, rfl, hopen, hnext⟩

end LetDef
