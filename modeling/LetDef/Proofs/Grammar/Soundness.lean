import LetDef.Grammar.Statement
import LetDef.Proofs.Grammar.Nesting
import LetDef.Proofs.Grammar.RuleLogic

/-!
# What is read is derived

Where a rule of the grammar succeeds, the tokens that it has read spell what it answers, and the
answer nests no deeper than the limit allows.  Each rule takes the rules for what is nested in it as
a parameter, so each lemma here takes what those yield as a hypothesis, and `expression_yields` and
`block_yields` tie the knot by induction on the limit.

Nothing is assumed of the tokens: the statements hold of lists that no text is cut into as well.
-/

namespace LetDef.Grammar

open Rule

variable {limit : Nat} {nested : Rule Expr}

/-! ## Expressions -/

/-- The tokens spell an expression of the rank, whose groups and arguments fit into the limit. -/
def Spells (limit : Nat) (rank : Rank) (ts : List Token) (e : Expr) : Prop :=
  Derives ts (.expression rank e) ∧ e.nesting ≤ limit

/-- The tokens spell a whole expression that fits into the limit. -/
def SpellsWhole (limit : Nat) (ts : List Token) (e : Expr) : Prop :=
  Derives ts (.expression .whole e) ∧ e.need ≤ limit

lemma spellsWhole_ne_nil (ts : List Token) (e : Expr) (h : SpellsWhole limit ts e) : ts ≠ [] :=
  h.1.expression_ne_nil

/-- Expressions with commas between them derive a list, and the limit is enough for each. -/
lemma derives_expressions {ts : List Token} {es : List Expr}
    (h : Separated (SpellsWhole limit) ts es) :
    Derives ts (.expressions es) ∧ Expr.largestNeed es ≤ limit := by
  induction h with
  | one hp => exact ⟨.oneExpression hp.1, Nat.max_le.2 ⟨hp.2, Nat.zero_le _⟩⟩
  | more hp hcomma _ ih =>
    exact ⟨.moreExpressions hp.1 hcomma ih.1, Nat.max_le.2 ⟨hp.2, ih.2⟩⟩

/-- Arguments derive, also if there are none. -/
lemma derives_arguments {ts : List Token} {es : List Expr}
    (h : Listed (SpellsWhole limit) ts es) :
    Derives ts (.arguments es) ∧ Expr.largestNeed es ≤ limit := by
  rcases h with ⟨rfl, rfl⟩ | h
  · exact ⟨.noArguments, Nat.zero_le _⟩
  · obtain ⟨hd, hneed⟩ := derives_expressions h
    exact ⟨.arguments hd, hneed⟩

/-- What stands between parentheses, with the closing one. -/
lemma parenthesized_nested_yields (h : nested.Yields (SpellsWhole limit)) :
    (parenthesized nested).Yields fun ts es => ∃ us r, ts = us ++ [r] ∧ r.literal = ")" ∧
      Derives us (.arguments es) ∧ Expr.largestNeed es ≤ limit := by
  refine (parenthesized_yields h spellsWhole_ne_nil).mono ?_
  rintro _ es ⟨us, r, rfl, hr, hs⟩
  exact ⟨us, r, rfl, hr, derives_arguments hs⟩

/-- A primary expression by its first token. -/
lemma primary_cons (nested : Rule Expr) (t : Token) (rest : List Token) (stop : Nat) :
    primary nested ⟨t :: rest, stop⟩ =
      match Opening.ofToken t with
      | .literal value => .ok (.literal value) ⟨rest, stop⟩
      | .malformed => .error ⟨.malformedLiteral, t.offset⟩ ⟨rest, stop⟩
      | .group => groupRest nested ⟨rest, stop⟩
      | .name => nameRest nested t.literal ⟨rest, stop⟩
      | .nothing => .error ⟨.invalidPrimaryExpression, t.offset⟩ ⟨t :: rest, stop⟩ := by
  have hpeek : Rule.peek ⟨t :: rest, stop⟩ = .ok (some t) ⟨t :: rest, stop⟩ := rfl
  rw [primary, liftM_rule, bind_of_ok hpeek]
  cases hopening : Opening.ofToken t <;> simp only [hopening] <;> rfl

lemma primary_nil (nested : Rule Expr) (stop : Nat) :
    primary nested ⟨[], stop⟩ = .error ⟨.invalidPrimaryExpression, stop⟩ ⟨[], stop⟩ := rfl

/-- A literal token, by its kind, denotes the value that is read from it. -/
lemma denotes_of_literalValue {t : Token} {v : Literal} (h : literalValue? t = some v) :
    Denotes t v := by
  unfold literalValue? at h
  split at h
  · next hkind =>
    obtain ⟨i, hi, rfl⟩ := Option.map_eq_some_iff.1 h
    exact .integer hkind hi
  · next hkind =>
    obtain ⟨d, hd, rfl⟩ := Option.map_eq_some_iff.1 h
    exact .decimal hkind hd
  · next hkind =>
    obtain ⟨s, hs, rfl⟩ := Option.map_eq_some_iff.1 h
    exact .string hkind hs
  · next hkind =>
    split at h
    · next c hc =>
      obtain rfl := Option.some.inj h
      obtain ⟨s, hs, hchars⟩ := Option.map_eq_some_iff.1 hc
      refine .character hkind ?_
      rw [hs, ← hchars, String.ofList_toList]
    · simp at h
  · simp at h

/-- What a token opens says what the token is. -/
def Opening.Describes (t : Token) : Opening → Prop
  | .literal v => Denotes t v
  | .group => t.literal = "("
  | .name => IsVariable t
  | .malformed | .nothing => True

/-- What a token opens says what token it is. -/
lemma opening_describes (t : Token) : (Opening.ofToken t).Describes t := by
  unfold Opening.ofToken
  split
  · next h => exact .nil h
  split
  · next h => exact .true h
  split
  · next h => exact .false h
  next hnil htrue hfalse =>
  cases hkind : t.kind with
  | identifier =>
    simp only
    split
    · next h => exact h
    · exact ⟨hkind, by simp [constantWords, hnil, htrue, hfalse]⟩
  | operator =>
    simp only
    split
    · next h => exact h
    · trivial
  | _ =>
    simp only
    cases hvalue : literalValue? t with
    | none => trivial
    | some v => exact denotes_of_literalValue hvalue

lemma groupRest_yields (h : nested.Yields (SpellsWhole limit)) :
    (groupRest nested).Yields fun ts e => ∃ us r f, ts = us ++ [r] ∧ r.literal = ")" ∧
      SpellsWhole limit us f ∧ e = .group f := by
  refine (h.bind fun f => closingParen_yields.map (f := fun _ => Expr.group f)
    (Q := fun ts e => e = .group f ∧ ∃ r, ts = [r] ∧ r.literal = ")") fun _ _ hr =>
      ⟨rfl, hr⟩).mono ?_
  rintro _ _ ⟨us, _, f, rfl, hf, rfl, r, rfl, hr⟩
  exact ⟨us, r, f, rfl, hr, hf, rfl⟩

/-- The name of a function is followed by its arguments, and the name of a variable by none. -/
lemma nameRest_yields (h : nested.Yields (SpellsWhole limit)) (name : String) :
    (nameRest nested name).Yields fun ts e => ts = [] ∧ e = .var name ∨
      ∃ l us r es, ts = l :: (us ++ [r]) ∧ l.literal = "(" ∧ r.literal = ")" ∧
        Derives us (.arguments es) ∧ Expr.largestNeed es ≤ limit ∧ e = .call name es := by
  refine ((introduced_yields (parenthesized_nested_yields h)).bind
    (R := fun o ts e => ts = [] ∧ e = (o.elim (.var name) (.call name))) ?_).mono ?_
  · rintro (_ | es)
    · exact .pure _
    · exact .pure _
  · rintro _ _ ⟨us, _, o, rfl, ho, rfl, rfl⟩
    rcases ho with ⟨rfl, rfl⟩ | ⟨l, _, es, rfl, hl, ⟨us, r, rfl, hr, hd, hneed⟩, rfl⟩
    · exact .inl ⟨rfl, rfl⟩
    · exact .inr ⟨l, us, r, es, by simp, hl, hr, hd, hneed, rfl⟩

/-- What is read as a primary expression derives one: the first token tells which. -/
lemma primary_yields (h : nested.Yields (SpellsWhole limit)) :
    (primary nested).Yields (Spells limit .primary) := by
  intro input e output hr
  rcases input with ⟨_ | ⟨t, rest⟩, stop⟩
  · simp [primary_nil] at hr
  rw [primary_cons] at hr
  have hdescribes := opening_describes t
  cases hopening : Opening.ofToken t with
  | literal v =>
    rw [hopening] at hr hdescribes
    obtain ⟨rfl, rfl⟩ := EStateM.Result.ok.inj hr
    exact ⟨[t], rfl, rfl, .literal hdescribes, Nat.zero_le _⟩
  | malformed => simp [hopening] at hr
  | group =>
    rw [hopening] at hr hdescribes
    obtain ⟨_, hahead, hend, us, r, f, rfl, hclose, hf, rfl⟩ := groupRest_yields h _ _ _ hr
    exact ⟨t :: (us ++ [r]), congrArg (t :: ·) hahead, hend, .group hdescribes hf.1 hclose, hf.2⟩
  | name =>
    rw [hopening] at hr hdescribes
    obtain ⟨_, hahead, hend, hcase⟩ := nameRest_yields h _ _ _ _ hr
    rcases hcase with ⟨rfl, rfl⟩ | ⟨l, us, r, es, rfl, hl, hclose, hd, hneed, rfl⟩
    · exact ⟨[t], congrArg (t :: ·) hahead, hend, .var hdescribes, Nat.zero_le _⟩
    · exact ⟨t :: l :: (us ++ [r]), congrArg (t :: ·) hahead, hend,
        .call hdescribes hl hd hclose, hneed⟩
  | nothing => simp [hopening] at hr

/-! ### Chains of members and calls -/

/-- The tokens of a selection: a point, a name, and arguments if it is a call. -/
inductive SpellsSelection (limit : Nat) : List Token → Selection → Prop where
  | member {dot t : Token} : t.kind = .identifier →
      SpellsSelection limit [dot, t] (.member t.literal)
  | invoke {dot t l r : Token} {us : List Token} {es : List Expr} :
      t.kind = .identifier → l.literal = "(" → Derives us (.arguments es) →
      Expr.largestNeed es ≤ limit → r.literal = ")" →
      SpellsSelection limit (dot :: t :: l :: (us ++ [r])) (.invoke t.literal es)

lemma selectionRest_yields (h : nested.Yields (SpellsWhole limit)) (name : Token) :
    (selectionRest nested name).Yields fun ts s => ∀ dot, name.kind = .identifier →
      SpellsSelection limit (dot :: name :: ts) s := by
  refine ((introduced_yields (parenthesized_nested_yields h)).bind (R := fun o ts s =>
    ts = [] ∧ s = (o.elim (.member name.literal) (.invoke name.literal))) ?_).mono ?_
  · rintro (_ | es)
    · exact .pure _
    · exact .pure _
  · rintro _ _ ⟨us, _, o, rfl, ho, rfl, rfl⟩ dot hname
    rcases ho with ⟨rfl, rfl⟩ | ⟨l, _, es, rfl, hl, ⟨us, r, rfl, hr, hd, hneed⟩, rfl⟩
    · exact .member hname
    · rw [List.append_nil]
      exact .invoke hname hl hd hneed hr

lemma selection_yields (h : nested.Yields (SpellsWhole limit)) :
    (selection nested).Yields (SpellsSelection limit) := by
  have hnamed :=
    (expect_yields (.kind .identifier) .missingIdentifier).bind (selectionRest_yields h)
  refine (skip_bind_yields hnamed ?_).mono ?_
  · rintro _ _ ⟨us, vs, t, rfl, ⟨rfl, -⟩, -⟩
    simp
  · rintro _ s ⟨dot, _, rfl, us, vs, t, rfl, ⟨rfl, hfits⟩, hs⟩
    exact hs dot (fits_kind_iff.1 hfits)

/-- Selections after an expression derive a chain of them, by induction on the selections. -/
lemma spells_selections {ts us : List Token} {e : Expr} {selections : List Selection}
    (h : Spells limit .secondary ts e)
    (hs : Sequence (fun ts s => SpellsSelection limit ts s ∧ ∀ t ∈ ts.head?, t.literal = ".")
      us selections) :
    Spells limit .secondary (ts ++ us) (selections.foldl Selection.of e) := by
  induction hs generalizing ts e with
  | nil => rwa [List.append_nil]
  | @cons vs us s selections hsel _ ih =>
    obtain ⟨hsel, hdot⟩ := hsel
    rw [← List.append_assoc, List.foldl_cons]
    apply ih
    cases hsel with
    | member hname => exact ⟨.member h.1 (hdot _ rfl) hname, h.2⟩
    | invoke hname hl hd hneed hr =>
      exact ⟨.invoke h.1 (hdot _ rfl) hname hl hd hr, Nat.max_le.2 ⟨h.2, hneed⟩⟩

lemma selection_ne_nil (ts : List Token) (s : Selection) (h : SpellsSelection limit ts s) :
    ts ≠ [] := by
  cases h <;> exact List.cons_ne_nil _ _

/-- What is read as a chain of selections derives one. -/
lemma secondary_yields (h : nested.Yields (SpellsWhole limit)) :
    (secondary nested).Yields (Spells limit .secondary) := by
  have hselections (receiver : Expr) :=
    (manyFrom_yields "." (selection_yields h) selection_ne_nil).map
      (f := fun selections => selections.foldl Selection.of receiver)
      (Q := fun us e => ∀ ts, Spells limit .secondary ts receiver →
        Spells limit .secondary (ts ++ us) e)
      fun us selections hs ts hreceiver => spells_selections hreceiver hs
  refine ((primary_yields h).bind hselections).mono ?_
  intro _ e ⟨ts, us, receiver, hsplit, hprimary, hs⟩
  rw [hsplit]
  exact hs ts ⟨.ofPrimary hprimary.1, hprimary.2⟩

/-! ### Operators -/

/-- Operators and operands after an expression derive an expression that nests to the left, by
induction on the operators. -/
lemma spells_operations {level : Level} {ts us : List Token} {e : Expr}
    {rest : List (String × Expr)} (h : Spells limit (.level level) ts e)
    (hs : Sequence (fun ts (a : String × Expr) => (∃ t us, ts = t :: us ∧ a.1 = t.literal ∧
      Spells limit level.operand us a.2) ∧ ∀ t ∈ ts.head?, (Pattern.oneOf level.operators).fits t)
      us rest) :
    Spells limit (.level level) (ts ++ us) (applyAll e rest) := by
  induction hs generalizing ts e with
  | nil => rwa [List.append_nil]
  | @cons vs us a rest hop _ ih =>
    obtain ⟨⟨t, vs, rfl, hname, hright⟩, hfits⟩ := hop
    have hmem := fits_oneOf_iff.1 (hfits t rfl)
    rw [← List.append_assoc]
    refine ih (e := .binary a.1 e a.2) ?_
    rw [hname]
    exact ⟨.binary h.1 hmem hright.1, Nat.max_le.2 ⟨h.2, hright.2⟩⟩

/-- What is read as an expression of a level derives one. -/
lemma leftNested_yields {level : Level} {operand : Rule Expr}
    (h : operand.Yields (Spells limit level.operand)) :
    (leftNested level.operators operand).Yields (Spells limit (.level level)) := by
  have hoperation : (operation operand).Yields fun ts a => ∃ t us, ts = t :: us ∧
      a.1 = t.literal ∧ Spells limit level.operand us a.2 := by
    refine (next_yields.bind fun t => h.map (f := fun e => (t.literal, e))
      (Q := fun us a => a.1 = t.literal ∧ Spells limit level.operand us a.2)
      fun us e hright => ⟨rfl, hright⟩).mono ?_
    intro _ a ⟨us, vs, t, hsplit, hus, hright⟩
    subst hus hsplit
    exact ⟨t, vs, rfl, hright⟩
  have hoperations (first : Expr) :=
    (many_yields (Pattern.oneOf level.operators).fits hoperation
      fun ts a ⟨t, us, hts, _⟩ => hts ▸ List.cons_ne_nil t us).map (f := applyAll first)
      (Q := fun us e => ∀ ts, Spells limit (.level level) ts first →
        Spells limit (.level level) (ts ++ us) e)
      fun us rest hs ts hfirst => spells_operations hfirst hs
  refine (h.bind hoperations).mono ?_
  intro _ e ⟨ts, us, first, hsplit, hfirst, hs⟩
  rw [hsplit]
  exact hs ts ⟨.ofOperand hfirst.1, hfirst.2⟩

/-! ### The ladder of levels -/

lemma logical_yields (h : nested.Yields (SpellsWhole limit)) :
    (logical nested).Yields (Spells limit .whole) := by
  have hmultiplicative : (multiplicative nested).Yields (Spells limit (.level .multiplicative)) :=
    leftNested_yields (secondary_yields h)
  have hadditive : (additive nested).Yields (Spells limit (.level .additive)) :=
    leftNested_yields hmultiplicative
  have hequality : (equality nested).Yields (Spells limit (.level .equality)) :=
    leftNested_yields hadditive
  exact leftNested_yields hequality

/-- What is read as an expression derives one that fits into the limit, by induction on the limit.
-/
theorem expression_yields (limit : Nat) : (expression limit).Yields (SpellsWhole limit) := by
  induction limit with
  | zero => exact .fail .recursionLimit _
  | succ limit ih =>
    have hlogical := logical_yields ih
    intro input e output hr
    obtain ⟨ts, hahead, hend, hd, hnesting⟩ := hlogical input e output hr
    exact ⟨ts, hahead, hend, hd, Nat.succ_le_succ hnesting⟩

/-! ## Fields and declarations -/

lemma derives_typePart {ts : List Token} {typeName : Option String}
    (h : Introduced ":" IsName ts typeName) : TypePart ts typeName := by
  rcases h with ⟨rfl, rfl⟩ | ⟨colon, _, _, rfl, hcolon, ⟨t, rfl, hname, rfl⟩, rfl⟩
  · exact .none
  · exact .some hcolon hname

lemma derives_value {ts : List Token} {v : Option Expr}
    (h : Introduced "=" (SpellsWhole limit) ts v) :
    Derives ts (.value v) ∧ Expr.needOfOption v ≤ limit := by
  rcases h with ⟨rfl, rfl⟩ | ⟨eq, us, e, rfl, heq, he, rfl⟩
  · exact ⟨.noValue, Nat.zero_le _⟩
  · exact ⟨.value heq he.1, he.2⟩

/-- What is read as a binding derives one. -/
lemma letBinding_yields (h : nested.Yields (SpellsWhole limit)) :
    (letBinding nested).Yields fun ts b => Derives ts (.field b) ∧ b.need ≤ limit := by
  have hbinding : (binding nested).Yields fun ts b => ∃ t us vs, ts = t :: (us ++ vs) ∧
      t.kind = .identifier ∧ t.literal = b.name ∧ TypePart us b.typeName ∧
      Derives vs (.value b.value) ∧ b.need ≤ limit := by
    intro input b output hr
    obtain ⟨_, name, mid, hahead, hend, ⟨t, rfl, ht, rfl⟩, hr⟩ := identifier_yields.step hr
    obtain ⟨us, typeName, mid', hahead', hend', htype, hr⟩ :=
      (introduced_yields identifier_yields).step hr
    obtain ⟨vs, v, _, hahead'', hend'', hvalue, hr⟩ := (introduced_yields h).step hr
    obtain ⟨rfl, rfl⟩ := pure_eq_ok_iff.1 hr
    obtain ⟨hd, hneed⟩ := derives_value hvalue
    refine ⟨t :: (us ++ vs), ?_, by rw [hend'', hend', hend], t, us, vs, rfl, ht, rfl,
      derives_typePart htype, hd, hneed⟩
    simp [hahead, hahead', hahead'']
  intro input b output hr
  obtain ⟨_, _, mid, hahead, hend, ⟨word, rfl, hword⟩, hr⟩ := (word_yields "LET").step hr
  obtain ⟨_, ⟨name, typeName, v⟩, mid', hahead', hend', ⟨t, us, vs, rfl, ht, rfl, htype, hd, hneed⟩,
    hr⟩ := hbinding.step hr
  obtain ⟨_, _, _, hahead'', hend'', ⟨semicolon, rfl, hsemicolon⟩, hr⟩ := semicolon_yields.step hr
  obtain ⟨rfl, rfl⟩ := pure_eq_ok_iff.1 hr
  refine ⟨word :: t :: (us ++ (vs ++ [semicolon])), ?_, by rw [hend'', hend', hend],
    .field hword ht htype hd hsemicolon, hneed⟩
  simp [hahead, hahead', hahead'']

/-! ## Statements -/

/-- The tokens spell a statement whose expressions and blocks fit into the limit. -/
def SpellsStatement (limit : Nat) (ts : List Token) (s : Stmt) : Prop :=
  Derives ts (.statement s) ∧ s.need ≤ limit

/-- The tokens spell a block that fits into the limit. -/
def SpellsBlock (limit : Nat) (enders : List String) (ts : List Token) (ss : List Stmt) : Prop :=
  Derives ts (.block enders ss) ∧ Stmt.needOfBlock ss ≤ limit

/-- The pattern fits the words that end a block, and nothing else. -/
def Ends (terminator : Pattern) (enders : List String) : Prop :=
  ∀ t, terminator.fits t ↔ t.literal ∈ enders

lemma ends_thenEnders : Ends (.oneOf ["ELSE", "END"]) thenEnders :=
  fun _ => fits_oneOf_iff

lemma ends_blockEnders : Ends (.literal "END") blockEnders := by
  intro t
  simp [fits_literal_iff, blockEnders]

/-- What the rules for the parts of a statement yield. -/
structure Inner.Sound (inner : Inner Rule) (limit : Nat) : Prop where
  expression : inner.expression.Yields (SpellsWhole limit)
  block : ∀ terminator enders, Ends terminator enders →
    (inner.block terminator).Yields (SpellsBlock limit enders)

/-- A statement is read by the rule for the form that the token ahead decides on. -/
lemma statement_eq (inner : Inner Rule) (input : TokenInput) :
    statement inner input = formRule inner (Form.ofToken? input.ahead.head?) input := by
  have hpeek : Rule.peek input = .ok input.ahead.head? input := rfl
  rw [statement, liftM_rule, bind_of_ok hpeek]

/-- All words but five start an expression or an assignment. -/
lemma ofWord_eq_evaluation_iff {word : String} :
    Form.ofWord word = .evaluation ↔ word ∉ statementWords := by
  unfold Form.ofWord statementWords
  grind

namespace Inner.Sound

variable {inner : Inner Rule}

lemma enclosed_yields (h : inner.Sound limit) :
    (enclosed inner).Yields fun ts ss => Derives ts (.body ss) ∧ Stmt.needOfBlock ss ≤ limit := by
  intro input ss output hr
  obtain ⟨_, _, mid, hahead, hend, ⟨doWord, rfl, hdo⟩, hr⟩ := (word_yields "DO").step hr
  obtain ⟨ts, ss, mid', hahead', hend', ⟨hd, hneed⟩, hr⟩ :=
    (h.block _ _ ends_blockEnders).step hr
  obtain ⟨_, _, _, hahead'', hend'', ⟨endWord, rfl, hendWord⟩, hr⟩ := (word_yields "END").step hr
  obtain ⟨rfl, rfl⟩ := pure_eq_ok_iff.1 hr
  refine ⟨doWord :: (ts ++ [endWord]), ?_, by rw [hend'', hend', hend], .body hdo hd hendWord,
    hneed⟩
  simp [hahead, hahead', hahead'']

lemma declaration_yields (h : inner.Sound limit) :
    (declaration inner).Yields (SpellsStatement limit) :=
  (letBinding_yields h.expression).map fun _ _ ⟨hd, hneed⟩ => ⟨.declaration hd, hneed⟩

/-- What is read as a choice derives one, with or without a second block. -/
lemma conditional_yields (h : inner.Sound limit) :
    (conditional inner).Yields (SpellsStatement limit) := by
  have helse : (Rule.introduced "ELSE" (inner.block (.literal "END"))).Yields fun ts o =>
      Derives ts (.otherwise (o.getD [])) ∧ Stmt.largestNeed (o.getD []) + 1 ≤ max limit 1 := by
    refine (introduced_yields (h.block _ _ ends_blockEnders)).mono ?_
    rintro ts o (⟨rfl, rfl⟩ | ⟨word, us, ss, rfl, hword, ⟨hd, hneed⟩, rfl⟩)
    · exact ⟨.noElse, Nat.le_max_right _ _⟩
    · exact ⟨.otherwise hword hd, Nat.le_trans hneed (Nat.le_max_left _ _)⟩
  intro input s output hr
  obtain ⟨_, _, i₁, hahead₁, hend₁, ⟨word, rfl, hword⟩, hr⟩ := (word_yields "IF").step hr
  obtain ⟨ts, e, i₂, hahead₂, hend₂, ⟨he, hneed⟩, hr⟩ := h.expression.step hr
  obtain ⟨_, _, i₃, hahead₃, hend₃, ⟨doWord, rfl, hdo⟩, hr⟩ := (word_yields "DO").step hr
  obtain ⟨us, thenBlock, i₄, hahead₄, hend₄, ⟨hthen, hneedThen⟩, hr⟩ :=
    (h.block _ _ ends_thenEnders).step hr
  obtain ⟨vs, elseBlock, i₅, hahead₅, hend₅, ⟨helse, hneedElse⟩, hr⟩ := helse.step hr
  obtain ⟨_, _, i₆, hahead₆, hend₆, ⟨endWord, rfl, hendWord⟩, hr⟩ := (word_yields "END").step hr
  obtain ⟨rfl, rfl⟩ := pure_eq_ok_iff.1 hr
  -- the condition has been read, so the limit is not 0
  have hlimit : max limit 1 = limit := Nat.max_eq_left (Nat.le_trans (Nat.le_add_left 1 _) hneed)
  rw [hlimit] at hneedElse
  refine ⟨word :: (ts ++ doWord :: (us ++ (vs ++ [endWord]))), ?_,
    by rw [hend₆, hend₅, hend₄, hend₃, hend₂, hend₁],
    .conditional hword he hdo hthen helse hendWord,
    Nat.max_le.2 ⟨hneed, Nat.max_le.2 ⟨hneedThen, hneedElse⟩⟩⟩
  simp [hahead₁, hahead₂, hahead₃, hahead₄, hahead₅, hahead₆]

lemma forEach_yields (h : inner.Sound limit) :
    (forEach inner).Yields (SpellsStatement limit) := by
  intro input s output hr
  obtain ⟨_, _, i₁, hahead₁, hend₁, ⟨word, rfl, hword⟩, hr⟩ := (word_yields "FOR").step hr
  obtain ⟨_, _, i₂, hahead₂, hend₂, ⟨t, rfl, ht, rfl⟩, hr⟩ := identifier_yields.step hr
  obtain ⟨_, _, i₃, hahead₃, hend₃, ⟨inWord, rfl, hin⟩, hr⟩ := (word_yields "IN").step hr
  obtain ⟨ts, e, i₄, hahead₄, hend₄, ⟨he, hneed⟩, hr⟩ := h.expression.step hr
  obtain ⟨us, body, i₅, hahead₅, hend₅, ⟨hbody, hneedBody⟩, hr⟩ := h.enclosed_yields.step hr
  obtain ⟨rfl, rfl⟩ := pure_eq_ok_iff.1 hr
  refine ⟨word :: t :: inWord :: (ts ++ us), ?_, by rw [hend₅, hend₄, hend₃, hend₂, hend₁],
    .forEach hword ht hin he hbody, Nat.max_le.2 ⟨hneed, hneedBody⟩⟩
  simp [hahead₁, hahead₂, hahead₃, hahead₄, hahead₅]

lemma whileLoop_yields (h : inner.Sound limit) :
    (whileLoop inner).Yields (SpellsStatement limit) := by
  intro input s output hr
  obtain ⟨_, _, i₁, hahead₁, hend₁, ⟨word, rfl, hword⟩, hr⟩ := (word_yields "WHILE").step hr
  obtain ⟨ts, e, i₂, hahead₂, hend₂, ⟨he, hneed⟩, hr⟩ := h.expression.step hr
  obtain ⟨us, body, i₃, hahead₃, hend₃, ⟨hbody, hneedBody⟩, hr⟩ := h.enclosed_yields.step hr
  obtain ⟨rfl, rfl⟩ := pure_eq_ok_iff.1 hr
  refine ⟨word :: (ts ++ us), ?_, by rw [hend₃, hend₂, hend₁], .whileLoop hword he hbody,
    Nat.max_le.2 ⟨hneed, hneedBody⟩⟩
  simp [hahead₁, hahead₂, hahead₃]

lemma result_yields (h : inner.Sound limit) :
    (result inner).Yields (SpellsStatement limit) := by
  intro input s output hr
  obtain ⟨_, _, i₁, hahead₁, hend₁, ⟨word, rfl, hword⟩, hr⟩ := (word_yields "RETURN").step hr
  obtain ⟨ts, value, i₂, hahead₂, hend₂, hvalue, hr⟩ := (unlessSeen_yields h.expression).step hr
  obtain ⟨_, _, i₃, hahead₃, hend₃, ⟨semicolon, rfl, hsemicolon⟩, hr⟩ := semicolon_yields.step hr
  obtain ⟨rfl, rfl⟩ := pure_eq_ok_iff.1 hr
  have hahead : input.ahead = word :: (ts ++ [semicolon]) ++ i₃.ahead := by
    simp [hahead₁, hahead₂, hahead₃]
  have hend : i₃.endOffset = input.endOffset := by rw [hend₃, hend₂, hend₁]
  rcases hvalue with ⟨rfl, rfl⟩ | ⟨e, ⟨he, hneed⟩, rfl⟩
  · exact ⟨[word, semicolon], hahead, hend, .noResult hword hsemicolon, Nat.zero_le _⟩
  · exact ⟨word :: (ts ++ [semicolon]), hahead, hend, .result hword he hsemicolon, hneed⟩

/-- The rule for expressions and assignments does not look at the first word, so it yields one only
where that word leaves the choice to it. -/
lemma evaluation_yields (h : inner.Sound limit) :
    (evaluation inner).Yields fun ts s => StartsOutside statementWords ts →
      SpellsStatement limit ts s := by
  intro input s output hr
  obtain ⟨ts, e, i₁, hahead₁, hend₁, ⟨he, hneed⟩, hr⟩ := h.expression.step hr
  have hne : ts ≠ [] := he.expression_ne_nil
  obtain ⟨us, value, i₂, hahead₂, hend₂, hvalue, hr⟩ :=
    (introduced_yields h.expression).step hr
  rcases hvalue with ⟨rfl, rfl⟩ | ⟨eq, us, f, rfl, heq, ⟨hf, hneed'⟩, rfl⟩
  · obtain ⟨_, _, i₃, hahead₃, hend₃, ⟨semicolon, rfl, hsemicolon⟩, hr⟩ := semicolon_yields.step hr
    obtain ⟨rfl, rfl⟩ := pure_eq_ok_iff.1 hr
    refine ⟨ts ++ [semicolon], ?_, by rw [hend₃, hend₂, hend₁], fun hstart => ?_⟩
    · simp [hahead₁, hahead₂, hahead₃]
    · rw [startsOutside_append hne] at hstart
      exact ⟨.expression he hstart hsemicolon, hneed⟩
  · obtain ⟨_, _, i₃, hahead₃, hend₃, ⟨semicolon, rfl, hsemicolon⟩, hr⟩ := semicolon_yields.step hr
    obtain ⟨rfl, rfl⟩ := pure_eq_ok_iff.1 hr
    refine ⟨ts ++ eq :: (us ++ [semicolon]), ?_, by rw [hend₃, hend₂, hend₁], fun hstart => ?_⟩
    · simp [hahead₁, hahead₂, hahead₃]
    · rw [startsOutside_append hne] at hstart
      exact ⟨.assignment he hstart heq hf hsemicolon, Nat.max_le.2 ⟨hneed, hneed'⟩⟩

/-- What is read as a statement derives one; the token ahead has decided on its form. -/
theorem statement_yields (h : inner.Sound limit) :
    (statement inner).Yields (SpellsStatement limit) := by
  intro input s output hr
  rw [statement_eq] at hr
  cases hform : Form.ofToken? input.ahead.head? with
  | declaration => exact h.declaration_yields input s output (by rwa [hform] at hr)
  | conditional => exact h.conditional_yields input s output (by rwa [hform] at hr)
  | forEach => exact h.forEach_yields input s output (by rwa [hform] at hr)
  | whileLoop => exact h.whileLoop_yields input s output (by rwa [hform] at hr)
  | result => exact h.result_yields input s output (by rwa [hform] at hr)
  | evaluation =>
    obtain ⟨ts, hahead, hend, hs⟩ := h.evaluation_yields input s output (by rwa [hform] at hr)
    refine ⟨ts, hahead, hend, hs fun t ht => ?_⟩
    have hhead : input.ahead.head? = some t := by
      rw [hahead, List.head?_append, Option.mem_def.1 ht, Option.some_or]
    rw [hhead] at hform
    exact ofWord_eq_evaluation_iff.1 hform

lemma statements_yields (h : inner.Sound limit) {terminator : Pattern} {enders : List String}
    (hends : Ends terminator enders) :
    (statements inner terminator).Yields (SpellsBlock (limit + 1) enders) := by
  have hmany := many_yields (fun token => !terminator.fits token) h.statement_yields
    fun ts s hs => hs.1.statement_ne_nil
  refine hmany.mono fun ts ss hs => ?_
  induction hs with
  | nil => exact ⟨.noStatements, Nat.le_add_left 1 limit⟩
  | @cons ts us s ss hs _ ih =>
    obtain ⟨⟨hd, hneed⟩, hstart⟩ := hs
    have hstart : StartsOutside enders ts := by
      intro t ht hmem
      simpa [(hends t).2 hmem] using hstart t ht
    refine ⟨.statements hd hstart ih.1, ?_⟩
    exact Nat.succ_le_succ (Nat.max_le.2 ⟨hneed, Nat.le_of_succ_le_succ ih.2⟩)

end Inner.Sound

/-- Blocks and expressions nest independently, and blocks in blocks by the limit. -/
theorem block_yields (limit : Nat) {terminator : Pattern} {enders : List String}
    (hends : Ends terminator enders) :
    (block limit terminator).Yields (SpellsBlock limit enders) := by
  induction limit generalizing terminator enders with
  | zero => exact .fail .recursionLimit _
  | succ limit ih =>
    have hinner : Inner.Sound ⟨expression limit, block limit⟩ limit :=
      ⟨expression_yields limit, fun _ _ => ih⟩
    exact hinner.statements_yields hends

lemma innerAt_sound (limit : Nat) : (innerAt limit).Sound limit :=
  ⟨expression_yields limit, fun _ _ => block_yields limit⟩

/-! ## Methods and programs -/

/-- What is read as a method derives one. -/
theorem method_yields (limit : Nat) :
    (method (innerAt limit)).Yields fun ts m => Derives ts (.method m) ∧ m.need ≤ limit := by
  have hparameters := parenthesized_yields identifier_yields fun ts _ ⟨t, hts, _⟩ =>
    hts ▸ List.cons_ne_nil t []
  intro input m output hr
  obtain ⟨_, _, i₁, hahead₁, hend₁, ⟨word, rfl, hword⟩, hr⟩ := (word_yields "DEF").step hr
  obtain ⟨_, _, i₂, hahead₂, hend₂, ⟨t, rfl, ht, rfl⟩, hr⟩ := identifier_yields.step hr
  obtain ⟨_, _, i₃, hahead₃, hend₃, ⟨l, rfl, hl⟩, hr⟩ := (word_yields "(").step hr
  obtain ⟨_, names, i₄, hahead₄, hend₄, ⟨ts, r, rfl, hclose, hnames⟩, hr⟩ := hparameters.step hr
  obtain ⟨us, body, i₅, hahead₅, hend₅, ⟨hbody, hneed⟩, hr⟩ :=
    (innerAt_sound limit).enclosed_yields.step hr
  obtain ⟨rfl, rfl⟩ := pure_eq_ok_iff.1 hr
  refine ⟨word :: t :: l :: (ts ++ r :: us), ?_, by rw [hend₅, hend₄, hend₃, hend₂, hend₁],
    .method hword ht hl hnames hclose hbody, hneed⟩
  simp [hahead₁, hahead₂, hahead₃, hahead₄, hahead₅]

/-- A program ends where the list does. -/
lemma endOfProgram_eq_ok_iff {input output : TokenInput} :
    endOfProgram input = .ok () output ↔ input.ahead = [] ∧ output = input := by
  rcases input with ⟨_ | ⟨t, rest⟩, stop⟩
  · exact ⟨fun h => ⟨rfl, (EStateM.Result.ok.inj h).2.symm⟩, fun ⟨_, h⟩ => by rw [h]; rfl⟩
  · refine ⟨fun h => ?_, fun h => absurd h.1 (List.cons_ne_nil t rest)⟩
    exact absurd h (by simp [endOfProgram, Rule.peek, Rule.fail, bind, EStateM.bind])

/-- A sequence of fields and a sequence of methods make a program. -/
lemma derives_program {ts us : List Token} {bs : List Binding} {ms : List Method}
    (hbs : Sequence (fun ts b => Derives ts (.field b) ∧ b.need ≤ limit) ts bs)
    (hms : Sequence (fun ts m => Derives ts (.method m) ∧ m.need ≤ limit) us ms) :
    Derives (ts ++ us) (.program ⟨bs, ms⟩) ∧ Program.need ⟨bs, ms⟩ ≤ limit := by
  induction hbs with
  | nil =>
    rw [List.nil_append]
    induction hms with
    | nil => exact ⟨.noMethods, Nat.zero_le _⟩
    | cons hm _ ih =>
      obtain ⟨hd, hneed⟩ := ih
      simp only [Program.need, List.map_nil, List.foldr_nil, Nat.zero_max] at hneed
      refine ⟨.methods hm.1 hd, ?_⟩
      simpa [Program.need, Nat.max_le] using ⟨hm.2, hneed⟩
  | cons hb _ ih =>
    obtain ⟨hd, hneed⟩ := ih
    rw [List.append_assoc]
    refine ⟨.fields hb.1 hd, ?_⟩
    simp only [Program.need, Nat.max_le] at hneed
    simpa [Program.need, Nat.max_le, and_assoc] using ⟨hb.2, hneed⟩

/-- Where the rule for programs succeeds, it has read everything that was ahead, and this spells
what it answers. -/
theorem program_sound {input output : TokenInput} {p : Program}
    (hr : program (innerAt limit) input = .ok p output) :
    Derives input.ahead (.program p) ∧ p.need ≤ limit := by
  have hfields := manyFrom_yields "LET" (letBinding_yields (expression_yields limit))
    fun ts b hb => hb.1.field_ne_nil
  have hmethods := manyFrom_yields "DEF" (method_yields limit) fun ts m hm => hm.1.method_ne_nil
  obtain ⟨ts, bs, i₁, hahead₁, -, hbs, hr⟩ := hfields.step hr
  obtain ⟨us, ms, i₂, hahead₂, -, hms, hr⟩ := hmethods.step hr
  obtain ⟨_, i₃, hstop, hpure⟩ := bind_eq_ok_iff.1 hr
  obtain ⟨hnil, rfl⟩ := endOfProgram_eq_ok_iff.1 hstop
  obtain ⟨rfl, -⟩ := pure_eq_ok_iff.1 hpure
  rw [hahead₁, hahead₂, hnil, List.append_nil]
  exact derives_program (hbs.mono fun _ _ h => h.1) (hms.mono fun _ _ h => h.1)

end LetDef.Grammar
