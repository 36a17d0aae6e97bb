import LetDef.Proofs.Grammar.Soundness
import LetDef.Proofs.Lexical.LongestMatch

/-!
# What is derived is read

Where tokens spell a phrase of the grammar, the rule for that phrase reads exactly those tokens and
answers what they spell, provided that the limit allows for it.

A rule cannot see where its phrase ends.  An expression is read up to its end only if the token
after it does not continue it, so the statements about expressions come with a condition on what
follows (`Rank.continuers`).  Statements and everything made of them end with a mark or a word of
their own and need no such condition.

The tokens have to be words of their kinds (`Token.WellSpelled`), as the tokens of a text are.  A
string token with the literal `(` would be a string for the grammar and a parenthesis for the rules.
-/

namespace LetDef

/-! ## Tokens that are words of their kinds -/

namespace Token.WellSpelled

variable {t : Token}

/-- A token that is spelled as its kind demands has no other kind under which its text is a word. -/
lemma kind_eq {k : Token.Kind} (ht : t.WellSpelled) (h : Spelling k t.literal.toList) :
    t.kind = k :=
  Lexeme.kind_unique ht h

lemma kind_of_mark (ht : t.WellSpelled) (h : t.literal ∈ ["(", ")", ";"]) :
    t.kind = .operator := by
  have hmark : ∀ c ∈ ['(', ')', ';'], Spelling .operator [c] := by
    intro c hc
    simp only [List.mem_cons, List.not_mem_nil, or_false] at hc
    rcases hc with rfl | rfl | rfl <;>
      exact .single (by decide) (by decide) (by decide) (by decide)
  apply ht.kind_eq
  simp only [List.mem_cons, List.not_mem_nil, or_false] at h
  rcases h with h | h | h <;> rw [h] <;> exact hmark _ (by decide)

lemma kind_of_constant (ht : t.WellSpelled) (h : t.literal ∈ constantWords) :
    t.kind = .identifier := by
  apply ht.kind_eq
  simp only [constantWords, List.mem_cons, List.not_mem_nil, or_false] at h
  rcases h with h | h | h <;> rw [h]
  · exact spelling_of_all 'N' ['I', 'L'] rfl rfl
  · exact spelling_of_all 'T' ['R', 'U', 'E'] rfl rfl
  · exact spelling_of_all 'F' ['A', 'L', 'S', 'E'] rfl rfl

end Token.WellSpelled

namespace Grammar

open Rule

variable {t : Token}

/-- A name that is none of the constants opens a variable or a call. -/
lemma opening_of_isVariable (ht : t.WellSpelled) (h : IsVariable t) :
    Opening.ofToken t = .name := by
  obtain ⟨hkind, hword⟩ := h
  have hparen : t.literal ≠ "(" := by
    intro hparen
    have hoperator := ht.kind_of_mark (by simp [hparen])
    simp [hkind] at hoperator
  simp only [constantWords, List.mem_cons, List.not_mem_nil, or_false, not_or] at hword
  simp [Opening.ofToken, hkind, hword, hparen]

lemma opening_of_paren (ht : t.WellSpelled) (h : t.literal = "(") :
    Opening.ofToken t = .group := by
  have hkind : t.kind = .operator := ht.kind_of_mark (by simp [h])
  simp [Opening.ofToken, hkind, h]

/-- A token of a literal kind is none of the words for constants, so what it opens depends on its
value alone. -/
lemma opening_of_literalValue {v : Literal} (ht : t.WellSpelled) (hkind : t.kind ≠ .identifier)
    (h : literalValue? t = some v) : Opening.ofToken t = .literal v := by
  have hword : t.literal ∉ constantWords := fun hword => hkind (ht.kind_of_constant hword)
  simp only [constantWords, List.mem_cons, List.not_mem_nil, or_false, not_or] at hword
  unfold Opening.ofToken
  rw [if_neg hword.1, if_neg hword.2.1, if_neg hword.2.2]
  cases hk : t.kind with
  | identifier => exact absurd hk hkind
  | operator => simp [literalValue?, hk] at h
  | _ => simp [h]

/-- A token that denotes a value opens the literal for this value. -/
lemma opening_of_denotes {v : Literal} (ht : t.WellSpelled) (h : Denotes t v) :
    Opening.ofToken t = .literal v := by
  cases h with
  | nil h => simp [Opening.ofToken, h]
  | true h => simp [Opening.ofToken, h]
  | false h => simp [Opening.ofToken, h]
  | integer hkind h =>
    exact opening_of_literalValue ht (by simp [hkind]) (by simp [literalValue?, hkind, h])
  | decimal hkind h =>
    exact opening_of_literalValue ht (by simp [hkind]) (by simp [literalValue?, hkind, h])
  | character hkind h =>
    exact opening_of_literalValue ht (by simp [hkind]) (by simp [literalValue?, hkind, h])
  | string hkind h =>
    exact opening_of_literalValue ht (by simp [hkind]) (by simp [literalValue?, hkind, h])

/-- No expression starts with a mark that ends a list or a statement. -/
lemma not_closing_of_opens (ht : t.WellSpelled) (h : Opens t) : t.literal ∉ [")", ";"] := by
  intro hmem
  have hkind : t.kind = .operator := ht.kind_of_mark (List.mem_cons_of_mem _ hmem)
  rcases h with ⟨v, h⟩ | h | h
  · cases h <;> simp_all
  · simp [h] at hmem
  · simp [h] at hkind

end Grammar

/-! ## What continues an expression -/

/-- The marks and words that continue an expression of the rank. -/
def Rank.continuers : Rank → List String
  | primary => ["("]
  | secondary => "." :: ["("]
  | level .multiplicative => Level.multiplicative.operators ++ "." :: ["("]
  | level .additive =>
    Level.additive.operators ++ (Level.multiplicative.operators ++ "." :: ["("])
  | level .equality =>
    Level.equality.operators ++
      (Level.additive.operators ++ (Level.multiplicative.operators ++ "." :: ["("]))
  | level .logical =>
    Level.logical.operators ++ (Level.equality.operators ++
      (Level.additive.operators ++ (Level.multiplicative.operators ++ "." :: ["("])))

/-- The operators of a level continue its expressions, besides what continues their operands. -/
lemma continuers_level (level : Level) :
    (Rank.level level).continuers = level.operators ++ level.operand.continuers := by
  cases level <;> rfl

/-- What continues an expression of a level is no part of its operands. -/
lemma not_mem_continuers_operand {level : Level} {op : String} (h : op ∈ level.operators) :
    op ∉ level.operand.continuers := by
  revert op
  cases level <;> decide

/-- Whatever the rank, an opening parenthesis would continue the expression. -/
lemma paren_mem_continuers (rank : Rank) : "(" ∈ rank.continuers := by
  cases rank with
  | level level => cases level <;> decide
  | _ => decide

lemma startsOutside_cons {words : List String} {t : Token} {ts : List Token} :
    StartsOutside words (t :: ts) ↔ t.literal ∉ words := by
  simp [StartsOutside]

/-- What starts outside some words starts outside fewer of them. -/
lemma StartsOutside.subset {words words' : List String} {ts : List Token}
    (h : StartsOutside words ts) (hsub : words' ⊆ words) : StartsOutside words' ts :=
  fun t ht hmem => h t ht (hsub hmem)

lemma StartsOutside.paren {rank : Rank} {ts : List Token}
    (h : StartsOutside rank.continuers ts) : StartsOutside ["("] ts := by
  apply h.subset
  intro text htext
  rw [List.mem_singleton.1 htext]
  exact paren_mem_continuers rank

namespace Grammar

open Rule

variable {nested : Rule Expr} {ts us rest : List Token} {t l r dot : Token} {e : Expr}
  {es : List Expr}

/-- The rule for the expressions of a rank. -/
def rankRule (nested : Rule Expr) : Rank → Rule Expr
  | .primary => primary nested
  | .secondary => secondary nested
  | .level .multiplicative => multiplicative nested
  | .level .additive => additive nested
  | .level .equality => equality nested
  | .level .logical => logical nested

/-- The rule of a level is one step above the rule for its operands. -/
lemma rankRule_level (nested : Rule Expr) (level : Level) :
    rankRule nested (.level level) =
      leftNested level.operators (rankRule nested level.operand) := by
  cases level <;> rfl

/-! ## Primary expressions and selections -/

lemma primary_reads_literal {v : Literal} (h : Opening.ofToken t = .literal v)
    (rest : List Token) : (primary nested).Reads [t] (.literal v) rest := by
  intro stop
  rw [List.singleton_append, primary_cons, h]

/-- A group is read if what is in it is read before the closing parenthesis. -/
lemma primary_reads_group (hl : Opening.ofToken l = .group)
    (h : nested.Reads ts e (r :: rest)) (hr : r.literal = ")") :
    (primary nested).Reads (l :: (ts ++ [r])) (.group e) rest := by
  have hrest : (groupRest nested).Reads (ts ++ [r]) (.group e) rest :=
    Reads.bind h ((closingParen_reads hr rest).map (f := fun _ => Expr.group e))
  intro stop
  rw [List.cons_append, primary_cons, hl]
  exact hrest stop

/-- A name is a variable where no parenthesis follows. -/
lemma primary_reads_var (ht : Opening.ofToken t = .name) (h : StartsOutside ["("] rest) :
    (primary nested).Reads [t] (.var t.literal) rest := by
  have hrest : (nameRest nested t.literal).Reads [] (.var t.literal) rest :=
    Reads.bind (introduced_reads_nil (parenthesized nested) h) (Reads.pure _ rest)
  intro stop
  rw [List.singleton_append, primary_cons, ht]
  exact hrest stop

/-- A name is a call where a parenthesis follows, and the arguments are read. -/
lemma primary_reads_call (ht : Opening.ofToken t = .name) (hl : l.literal = "(")
    (h : (parenthesized nested).Reads us es rest) :
    (primary nested).Reads (t :: l :: us) (.call t.literal es) rest := by
  have hrest : (nameRest nested t.literal).Reads (l :: us ++ []) (.call t.literal es) rest :=
    Reads.bind (introduced_reads hl h) (Reads.pure _ rest)
  rw [List.append_nil] at hrest
  intro stop
  rw [List.cons_append, primary_cons, ht]
  exact hrest stop

lemma selection_reads {s : Selection} (ht : t.kind = .identifier)
    (h : (selectionRest nested t).Reads us s rest) :
    (selection nested).Reads (dot :: t :: us) s rest := by
  have hnamed := (expect_reads (fits_kind_iff.2 ht) .missingIdentifier (us ++ rest)).bind h
  exact skip_bind_reads dot hnamed

/-- What follows a point is a member where no parenthesis follows its name. -/
lemma selection_reads_member (ht : t.kind = .identifier) (h : StartsOutside ["("] rest) :
    (selection nested).Reads [dot, t] (.member t.literal) rest := by
  apply selection_reads ht
  exact Reads.bind (introduced_reads_nil (parenthesized nested) h) (Reads.pure _ rest)

/-- What follows a point is a call where a parenthesis follows its name. -/
lemma selection_reads_invoke (ht : t.kind = .identifier) (hl : l.literal = "(")
    (h : (parenthesized nested).Reads us es rest) :
    (selection nested).Reads (dot :: t :: l :: us) (.invoke t.literal es) rest := by
  have hrest : (selectionRest nested t).Reads (l :: us ++ []) (.invoke t.literal es) rest :=
    Reads.bind (introduced_reads hl h) (Reads.pure _ rest)
  rw [List.append_nil] at hrest
  exact selection_reads ht hrest

lemma operation_reads (t : Token) {operand : Rule Expr} (h : operand.Reads ts e rest) :
    (operation operand).Reads (t :: ts) (t.literal, e) rest :=
  (next_reads t (ts ++ rest)).bind h.map

/-! ## What it means that a phrase is read -/

/-- The tokens are read as an item of a list with commas. -/
def IsItem (limit : Nat) (ts : List Token) (e : Expr) : Prop :=
  (ts ≠ [] ∧ StartsOutside [")"] ts) ∧
    ∀ rest, StartsOutside Rank.whole.continuers rest → (expression limit).Reads ts e rest

/-- The rule for a phrase reads the tokens, whatever follows them, provided that the limit allows
for it and what follows does not continue the phrase.

Chains and operators nest to the left, and the rules read their parts in a loop.  So for those two
kinds of expressions the statement is about a loop that is under way: where the rest of the loop
reads the tokens `us`, the whole rule reads `ts ++ us`. -/
def IsRead (ts : List Token) : Phrase → Prop
  | .expression .primary e => ∀ limit rest, e.nesting ≤ limit → StartsOutside ["("] rest →
      (primary (expression limit)).Reads ts e rest
  | .expression .secondary e => ∀ limit us rest selections, e.nesting ≤ limit →
      StartsOutside ["("] (us ++ rest) →
      (manyFrom "." (selection (expression limit))).Reads us selections rest →
      (secondary (expression limit)).Reads (ts ++ us) (selections.foldl Selection.of e) rest
  | .expression (.level level) e => ∀ limit us rest operations, e.nesting ≤ limit →
      StartsOutside level.operand.continuers (us ++ rest) →
      (many (Pattern.oneOf level.operators).fits
        (operation (rankRule (expression limit) level.operand))).Reads us operations rest →
      (rankRule (expression limit) (.level level)).Reads (ts ++ us) (applyAll e operations) rest
  | .expressions es => ∀ limit, Expr.largestNeed es ≤ limit → Separated (IsItem limit) ts es
  | .arguments es => ∀ limit r rest, Expr.largestNeed es ≤ limit → r.literal = ")" →
      (parenthesized (expression limit)).Reads (ts ++ [r]) es rest
  | .value v => ∀ limit rest, Expr.needOfOption v ≤ limit →
      StartsOutside ("=" :: Rank.whole.continuers) rest →
      (introduced "=" (expression limit)).Reads ts v rest
  | .field b => ∀ limit rest, b.need ≤ limit → (letBinding (expression limit)).Reads ts b rest
  | .statement s => ∀ limit rest, s.need ≤ limit → (statement (innerAt limit)).Reads ts s rest
  | .block enders ss => ∀ limit terminator rest, Stmt.needOfBlock ss ≤ limit →
      Ends terminator enders → (∀ t ∈ rest.head?, t.literal ∈ enders) →
      (block limit terminator).Reads ts ss rest
  | .body ss => ∀ limit rest, Stmt.needOfBlock ss ≤ limit →
      (enclosed (innerAt limit)).Reads ts ss rest
  | .otherwise ss => ∀ limit rest, Stmt.needOfBlock ss ≤ limit →
      (∀ t ∈ rest.head?, t.literal = "END") →
      ∃ o, o.getD [] = ss ∧
        (introduced "ELSE" (block limit (.literal "END"))).Reads ts o rest
  | .method m => ∀ limit rest, m.need ≤ limit → (method (innerAt limit)).Reads ts m rest
  | .program _ => True

/-! ## Expressions -/

/-- A primary expression is one with no selections. -/
lemma isRead_ofPrimary (h : IsRead ts (.expression .primary e)) :
    IsRead ts (.expression .secondary e) := by
  intro limit us rest selections hneed hrest hs
  have hprimary := h limit (us ++ rest) hneed hrest
  exact hprimary.bind hs.map

/-- What the loops are started with. -/
lemma reads_of_isRead {rank : Rank} (h : IsRead ts (.expression rank e)) (limit : Nat)
    (rest : List Token) (hneed : e.nesting ≤ limit) (hrest : StartsOutside rank.continuers rest) :
    (rankRule (expression limit) rank).Reads ts e rest := by
  cases rank with
  | primary => exact h limit rest hneed hrest
  | secondary =>
    have hdot : StartsOutside ["."] rest := hrest.subset (by decide)
    have hloop := h limit [] rest [] hneed hrest.paren (manyFrom_reads_nil _ hdot)
    rwa [List.append_nil] at hloop
  | level level =>
    rw [continuers_level] at hrest
    have hoperand : StartsOutside level.operand.continuers rest :=
      hrest.subset (List.subset_append_right _ _)
    have hoperators : StartsOutside level.operators rest :=
      hrest.subset (List.subset_append_left _ _)
    have hloop := h limit [] rest [] hneed hoperand
      (many_reads_nil _ fun t ht hfits => hoperators t ht (fits_oneOf_iff.1 hfits))
    rwa [List.append_nil] at hloop

/-- An operand is an expression of its level with no operators. -/
lemma isRead_ofOperand {level : Level} (h : IsRead ts (.expression level.operand e)) :
    IsRead ts (.expression (.level level) e) := by
  intro limit us rest operations hneed hrest hs
  have hoperand := reads_of_isRead h limit (us ++ rest) hneed hrest
  rw [rankRule_level]
  exact hoperand.bind hs.map

/-- An expression of a level is read on through an operator and the operand behind it.  What the
rule has collected is applied from the left, as the derivation says. -/
lemma isRead_binary {level : Level} {op : Token} {f : Expr}
    (h : IsRead ts (.expression (.level level) e)) (hop : op.literal ∈ level.operators)
    (hf : IsRead us (.expression level.operand f)) :
    IsRead (ts ++ op :: us) (.expression (.level level) (.binary op.literal e f)) := by
  intro limit vs rest operations hneed hrest hs
  obtain ⟨hneedLeft, hneedRight⟩ := Nat.max_le.1 hneed
  have hright := reads_of_isRead hf limit (vs ++ rest) hneedRight hrest
  have hmany := many_reads_cons (fits_oneOf_iff.2 hop) (operation_reads op hright) hs
  have hstart : StartsOutside level.operand.continuers (op :: us ++ vs ++ rest) :=
    startsOutside_cons.2 (not_mem_continuers_operand hop)
  have hloop := h limit (op :: us ++ vs) rest _ hneedLeft hstart hmany
  rwa [← List.append_assoc] at hloop

/-- An expression is read on through a point and a name. -/
lemma isRead_member (h : IsRead ts (.expression .secondary e)) (hdot : dot.literal = ".")
    (ht : t.kind = .identifier) :
    IsRead (ts ++ [dot, t]) (.expression .secondary (.member e t.literal)) := by
  intro limit us rest selections hneed hrest hs
  have hselection : (selection (expression limit)).Reads [dot, t] (.member t.literal)
      (us ++ rest) := selection_reads_member ht hrest
  have hstart : StartsOutside ["("] ([dot, t] ++ us ++ rest) :=
    startsOutside_cons.2 (by simp [hdot])
  have hloop := h limit ([dot, t] ++ us) rest _ hneed hstart
    (manyFrom_reads_cons hdot hselection hs)
  rwa [← List.append_assoc] at hloop

/-- An expression is read on through a point, a name and arguments. -/
lemma isRead_invoke (h : IsRead ts (.expression .secondary e)) (hdot : dot.literal = ".")
    (ht : t.kind = .identifier) (hl : l.literal = "(") (hes : IsRead us (.arguments es))
    (hr : r.literal = ")") :
    IsRead (ts ++ dot :: t :: l :: (us ++ [r]))
      (.expression .secondary (.invoke e t.literal es)) := by
  intro limit vs rest selections hneed hrest hs
  obtain ⟨hneedReceiver, hneedArguments⟩ := Nat.max_le.1 hneed
  have hselection : (selection (expression limit)).Reads (dot :: t :: l :: (us ++ [r]))
      (.invoke t.literal es) (vs ++ rest) :=
    selection_reads_invoke ht hl (hes limit r _ hneedArguments hr)
  have hstart : StartsOutside ["("] (dot :: t :: l :: (us ++ [r]) ++ vs ++ rest) :=
    startsOutside_cons.2 (by simp [hdot])
  have hloop := h limit (dot :: t :: l :: (us ++ [r]) ++ vs) rest _ hneedReceiver hstart
    (manyFrom_reads_cons hdot hselection hs)
  rwa [← List.append_assoc] at hloop

/-- A whole expression is read at every limit that it fits in, where nothing follows that would
continue it. -/
lemma expression_reads (h : IsRead ts (.expression .whole e)) {limit : Nat}
    (hneed : e.need ≤ limit) (hrest : StartsOutside Rank.whole.continuers rest) :
    (expression limit).Reads ts e rest := by
  cases limit with
  | zero => exact absurd hneed (Nat.not_succ_le_zero _)
  | succ limit => exact reads_of_isRead h limit rest (Nat.le_of_succ_le_succ hneed) hrest

/-- The marks and words that follow a whole expression do not continue it. -/
lemma startsOutside_follower (h : t.literal ∈ [")", ",", ";", "=", "DO"]) (rest : List Token) :
    StartsOutside Rank.whole.continuers (t :: rest) := by
  have hall : ∀ text ∈ [")", ",", ";", "=", "DO"], text ∉ Rank.whole.continuers := by decide
  exact startsOutside_cons.2 (hall _ h)

/-- A group is read at the next smaller limit inside, which is why it needs one more. -/
lemma isRead_group (hl : Opening.ofToken l = .group) (h : IsRead ts (.expression .whole e))
    (hr : r.literal = ")") : IsRead (l :: (ts ++ [r])) (.expression .primary (.group e)) := by
  intro limit rest hneed _
  have hrest := startsOutside_follower (t := r) (by simp [hr]) rest
  exact primary_reads_group hl (expression_reads h hneed hrest) hr

/-! ### Lists with commas -/

lemma readsItems_expression (limit : Nat) : ReadsItems (expression limit) (IsItem limit) where
  starts _ _ h := h.1
  reads ts e t rest h ht := by
    apply h.2
    apply startsOutside_follower
    rcases ht with ht | ht <;> simp [ht]

/-- An expression that is read is an item of a list, because neither a comma nor a closing
parenthesis continues it. -/
lemma isItem_of_isRead {limit : Nat} (hd : Derives ts (.expression .whole e))
    (hts : ∀ t ∈ ts, t.WellSpelled) (h : IsRead ts (.expression .whole e))
    (hneed : e.need ≤ limit) : IsItem limit ts e := by
  obtain ⟨t, us, rfl, hopens⟩ := hd.startsOpened
  have hclosing : t.literal ∉ [")", ";"] := not_closing_of_opens (hts t List.mem_cons_self) hopens
  refine ⟨⟨List.cons_ne_nil t us, startsOutside_cons.2 fun hmem => hclosing ?_⟩,
    fun rest hrest => expression_reads h hneed hrest⟩
  rw [List.mem_singleton.1 hmem]
  exact List.mem_cons_self

lemma isRead_arguments (h : IsRead ts (.expressions es)) : IsRead ts (.arguments es) :=
  fun limit _ rest hneed hr => parenthesized_reads (readsItems_expression limit)
    (.inr (h limit hneed)) hr rest

lemma isRead_noArguments : IsRead [] (.arguments []) :=
  fun limit _ rest _ hr => parenthesized_reads (readsItems_expression limit)
    (.inl ⟨rfl, rfl⟩) hr rest

/-! ## Fields and declarations -/

/-- What follows the optional part of a phrase is told apart from it, also if the next part is left
out as well. -/
lemma startsOutside_of_head {words : List String} {word : String} (hword : word ∉ words)
    (hts : ∀ t ∈ ts.head?, t.literal = word) (hrest : StartsOutside words rest) :
    StartsOutside words (ts ++ rest) := by
  rcases ts with _ | ⟨t, ts⟩
  · exact hrest
  · rw [List.cons_append, startsOutside_cons, hts t rfl]
    exact hword

/-- The value of a binding starts with an equals sign, if there is one. -/
lemma value_head {v : Option Expr} (h : Derives ts (.value v)) :
    ∀ t ∈ ts.head?, t.literal = "=" := by
  cases h with
  | noValue => simp
  | value heq _ => simpa using heq

/-- The second block of a choice starts with its word, if there is one. -/
lemma otherwise_head {ss : List Stmt} (h : Derives ts (.otherwise ss)) :
    ∀ t ∈ ts.head?, t.literal = "ELSE" := by
  cases h with
  | noElse => simp
  | otherwise hword _ => simpa using hword

lemma isRead_noValue : IsRead [] (.value none) := by
  intro limit rest _ hrest
  exact introduced_reads_nil _ (hrest.subset (by simp))

lemma isRead_value {eq : Token} (heq : eq.literal = "=") (h : IsRead ts (.expression .whole e)) :
    IsRead (eq :: ts) (.value (some e)) := by
  intro limit rest hneed hrest
  exact introduced_reads heq (expression_reads h hneed (hrest.subset (List.subset_cons_self _ _)))

/-- A type behind a colon is read, and its absence too. -/
lemma typePart_reads {typeName : Option String} (h : TypePart ts typeName)
    (hrest : StartsOutside [":"] rest) : (introduced ":" identifier).Reads ts typeName rest := by
  cases h with
  | none => exact introduced_reads_nil identifier hrest
  | some hcolon ht => exact introduced_reads hcolon (identifier_reads ht rest)

/-- A field is read with its type and its value, of which each may be left out. -/
lemma isRead_field {word semicolon : Token} {typeName : Option String} {v : Option Expr}
    (hword : word.literal = "LET") (ht : t.kind = .identifier) (htype : TypePart ts typeName)
    (hd : Derives us (.value v)) (hv : IsRead us (.value v))
    (hsemicolon : semicolon.literal = ";") :
    IsRead (word :: t :: (ts ++ (us ++ [semicolon]))) (.field ⟨t.literal, typeName, v⟩) := by
  intro limit rest hneed
  have hvalue : (introduced "=" (expression limit)).Reads us v (semicolon :: rest) := by
    apply hv limit _ hneed
    rw [startsOutside_cons, hsemicolon]
    decide
  have htypePart : (introduced ":" identifier).Reads ts typeName (us ++ semicolon :: rest) := by
    apply typePart_reads htype
    apply startsOutside_of_head (by decide) (value_head hd)
    rw [startsOutside_cons, hsemicolon]
    decide
  have hbinding : (binding (expression limit)).Reads ([t] ++ (ts ++ us)) ⟨t.literal, typeName, v⟩
      (semicolon :: rest) :=
    (identifier_reads ht _).bind (htypePart.bind hvalue.map)
  have hfield : (letBinding (expression limit)).Reads
      ([word] ++ ([t] ++ (ts ++ us) ++ [semicolon])) ⟨t.literal, typeName, v⟩ rest :=
    (word_reads hword _).bind (Reads.bind hbinding (semicolon_reads hsemicolon rest).map)
  simpa using hfield

/-! ## Statements -/

/-- A statement is read by the rule for the form that its first token decides on. -/
lemma statement_reads {inner : Inner Rule} {s : Stmt} (form : Form)
    (hform : Form.ofToken? (ts ++ rest).head? = form) (h : (formRule inner form).Reads ts s rest) :
    (statement inner).Reads ts s rest := by
  intro stop
  rw [statement_eq, hform]
  exact h stop

lemma isRead_declaration {b : Binding} (hd : Derives ts (.field b)) (h : IsRead ts (.field b)) :
    IsRead ts (.statement (.declaration b)) := by
  intro limit rest hneed
  have hfield := h limit rest hneed
  cases hd with
  | field hword _ _ _ _ =>
    apply statement_reads .declaration
    · simp [Form.ofToken?, Form.ofWord, hword]
    · exact Reads.map hfield

/-- A choice is read: its first block ends at either word, and the second one only at the last. -/
lemma isRead_conditional {word doWord endWord : Token} {vs : List Token}
    {thenBlock elseBlock : List Stmt} (hword : word.literal = "IF")
    (h : IsRead ts (.expression .whole e)) (hdo : doWord.literal = "DO")
    (hthen : IsRead us (.block thenEnders thenBlock)) (hd : Derives vs (.otherwise elseBlock))
    (helse : IsRead vs (.otherwise elseBlock)) (hend : endWord.literal = "END") :
    IsRead (word :: (ts ++ doWord :: (us ++ (vs ++ [endWord]))))
      (.statement (.conditional e thenBlock elseBlock)) := by
  intro limit rest hneed
  obtain ⟨hneedCondition, hneedBlocks⟩ := Nat.max_le.1 hneed
  obtain ⟨hneedThen, hneedElse⟩ := Nat.max_le.1 hneedBlocks
  obtain ⟨o, ho, hotherwise⟩ := helse limit (endWord :: rest) hneedElse (by simpa using hend)
  have hthenRest : ∀ t ∈ (vs ++ endWord :: rest).head?, t.literal ∈ thenEnders := by
    intro t ht
    rcases vs with _ | ⟨v, vs⟩
    · obtain rfl := Option.some.inj ht
      simp [hend, thenEnders]
    · obtain rfl := Option.some.inj ht
      simp [otherwise_head hd v rfl, thenEnders]
  have hthenBlock : ((innerAt limit).block (.oneOf ["ELSE", "END"])).Reads us thenBlock
      (vs ++ endWord :: rest) := hthen limit _ _ hneedThen ends_thenEnders hthenRest
  have hcondition : (innerAt limit).expression.Reads ts e
      (doWord :: (us ++ (vs ++ endWord :: rest))) :=
    expression_reads h hneedCondition (startsOutside_follower (by simp [hdo]) _)
  have hrule : (conditional (innerAt limit)).Reads
      ([word] ++ (ts ++ ([doWord] ++ (us ++ (vs ++ [endWord])))))
      (.conditional e thenBlock (o.getD [])) rest := by
    refine (word_reads hword _).bind (Reads.bind ?_ ((word_reads hdo _).bind
      (Reads.bind ?_ (Reads.bind hotherwise (word_reads hend rest).map))))
    · simpa using hcondition
    · simpa using hthenBlock
  rw [← ho]
  apply statement_reads .conditional
  · simp [Form.ofToken?, Form.ofWord, hword]
  · exact hrule

/-- A loop over a value is read, with its name and its block. -/
lemma isRead_forEach {word inWord : Token} {body : List Stmt} (hword : word.literal = "FOR")
    (ht : t.kind = .identifier) (hin : inWord.literal = "IN")
    (h : IsRead ts (.expression .whole e)) (hd : Derives us (.body body))
    (hbody : IsRead us (.body body)) :
    IsRead (word :: t :: inWord :: (ts ++ us)) (.statement (.forEach t.literal e body)) := by
  intro limit rest hneed
  obtain ⟨hneedValue, hneedBody⟩ := Nat.max_le.1 hneed
  have henclosed := hbody limit rest hneedBody
  have hvalue : (innerAt limit).expression.Reads ts e (us ++ rest) := by
    cases hd with
    | body hdo _ _ => exact expression_reads h hneedValue (startsOutside_follower (by simp [hdo]) _)
  have hrule : (forEach (innerAt limit)).Reads ([word] ++ ([t] ++ ([inWord] ++ (ts ++ us))))
      (.forEach t.literal e body) rest :=
    (word_reads hword _).bind ((identifier_reads ht _).bind
      ((word_reads hin _).bind (hvalue.bind henclosed.map)))
  apply statement_reads .forEach
  · simp [Form.ofToken?, Form.ofWord, hword]
  · exact hrule

lemma isRead_whileLoop {word : Token} {body : List Stmt} (hword : word.literal = "WHILE")
    (h : IsRead ts (.expression .whole e)) (hd : Derives us (.body body))
    (hbody : IsRead us (.body body)) :
    IsRead (word :: (ts ++ us)) (.statement (.whileLoop e body)) := by
  intro limit rest hneed
  obtain ⟨hneedCondition, hneedBody⟩ := Nat.max_le.1 hneed
  have henclosed := hbody limit rest hneedBody
  have hcondition : (innerAt limit).expression.Reads ts e (us ++ rest) := by
    cases hd with
    | body hdo _ _ =>
      exact expression_reads h hneedCondition (startsOutside_follower (by simp [hdo]) _)
  have hrule : (whileLoop (innerAt limit)).Reads ([word] ++ (ts ++ us)) (.whileLoop e body) rest :=
    (word_reads hword _).bind (hcondition.bind henclosed.map)
  apply statement_reads .whileLoop
  · simp [Form.ofToken?, Form.ofWord, hword]
  · exact hrule

lemma isRead_noResult {word semicolon : Token} (hword : word.literal = "RETURN")
    (hsemicolon : semicolon.literal = ";") :
    IsRead [word, semicolon] (.statement (.result none)) := by
  intro limit rest _
  have hnone := unlessSeen_reads_nil (innerAt limit).expression rest hsemicolon
  have hrule : (result (innerAt limit)).Reads ([word] ++ ([] ++ [semicolon])) (.result none) rest :=
    (word_reads hword _).bind (Reads.bind hnone (semicolon_reads hsemicolon rest).map)
  apply statement_reads .result
  · simp [Form.ofToken?, Form.ofWord, hword]
  · exact hrule

/-- A result is read with its value, which does not start with a semicolon. -/
lemma isRead_result {word semicolon : Token} (hword : word.literal = "RETURN")
    (hd : Derives ts (.expression .whole e)) (hts : ∀ t ∈ ts, t.WellSpelled)
    (h : IsRead ts (.expression .whole e)) (hsemicolon : semicolon.literal = ";") :
    IsRead (word :: (ts ++ [semicolon])) (.statement (.result (some e))) := by
  intro limit rest hneed
  have hvalue : (innerAt limit).expression.Reads ts e (semicolon :: rest) :=
    expression_reads h hneed (startsOutside_follower (by simp [hsemicolon]) _)
  have hstart : StartsOutside [";"] (ts ++ semicolon :: rest) := by
    obtain ⟨t, us, rfl, hopens⟩ := hd.startsOpened
    have hclosing := not_closing_of_opens (hts t List.mem_cons_self) hopens
    refine startsOutside_cons.2 fun hmem => hclosing ?_
    exact List.mem_cons_of_mem _ hmem
  have hrule : (result (innerAt limit)).Reads ([word] ++ (ts ++ [semicolon])) (.result (some e))
      rest :=
    (word_reads hword _).bind (Reads.bind (unlessSeen_reads hstart hvalue)
      (semicolon_reads hsemicolon rest).map)
  apply statement_reads .result
  · simp [Form.ofToken?, Form.ofWord, hword]
  · exact hrule

/-- A statement that starts with none of the five words is read as an expression or an
assignment. -/
lemma evaluation_statement_reads {inner : Inner Rule} {s : Stmt} (hne : ts ≠ [])
    (hstart : StartsOutside statementWords ts) (h : (evaluation inner).Reads (ts ++ us) s rest) :
    (statement inner).Reads (ts ++ us) s rest := by
  obtain ⟨t, ts, rfl⟩ := List.exists_cons_of_ne_nil hne
  exact statement_reads .evaluation (ofWord_eq_evaluation_iff.2 (startsOutside_cons.1 hstart)) h

/-- An expression is a statement if it starts with none of the five words. -/
lemma isRead_expression {semicolon : Token} (hd : Derives ts (.expression .whole e))
    (h : IsRead ts (.expression .whole e)) (hstart : StartsOutside statementWords ts)
    (hsemicolon : semicolon.literal = ";") :
    IsRead (ts ++ [semicolon]) (.statement (.expression e)) := by
  intro limit rest hneed
  have hreceiver : (innerAt limit).expression.Reads ts e (semicolon :: rest) :=
    expression_reads h hneed (startsOutside_follower (by simp [hsemicolon]) _)
  have hnone : StartsOutside ["="] (semicolon :: rest) := by
    rw [startsOutside_cons, hsemicolon]
    decide
  have hrule : (evaluation (innerAt limit)).Reads (ts ++ ([] ++ [semicolon])) (.expression e)
      rest :=
    Reads.bind hreceiver (Reads.bind (introduced_reads_nil _ hnone)
      (semicolon_reads hsemicolon rest).map)
  exact evaluation_statement_reads hd.expression_ne_nil hstart hrule

/-- An assignment is read as an expression first, and an equals sign does not continue one. -/
lemma isRead_assignment {eq semicolon : Token} {f : Expr}
    (hd : Derives ts (.expression .whole e)) (h : IsRead ts (.expression .whole e))
    (hstart : StartsOutside statementWords ts) (heq : eq.literal = "=")
    (hf : IsRead us (.expression .whole f)) (hsemicolon : semicolon.literal = ";") :
    IsRead (ts ++ eq :: (us ++ [semicolon])) (.statement (.assignment e f)) := by
  intro limit rest hneed
  obtain ⟨hneedReceiver, hneedValue⟩ := Nat.max_le.1 hneed
  have hreceiver : (innerAt limit).expression.Reads ts e (eq :: (us ++ semicolon :: rest)) :=
    expression_reads h hneedReceiver (startsOutside_follower (by simp [heq]) _)
  have hvalue : (innerAt limit).expression.Reads us f (semicolon :: rest) :=
    expression_reads hf hneedValue (startsOutside_follower (by simp [hsemicolon]) _)
  have hrule : (evaluation (innerAt limit)).Reads (ts ++ (eq :: us ++ [semicolon]))
      (.assignment e f) rest := by
    refine Reads.bind ?_ (Reads.bind (introduced_reads heq hvalue)
      (semicolon_reads hsemicolon rest).map)
    simpa using hreceiver
  exact evaluation_statement_reads hd.expression_ne_nil hstart hrule

/-! ## Blocks -/

lemma isRead_noStatements {enders : List String} : IsRead [] (.block enders []) := by
  intro limit terminator rest hneed hends hrest
  cases limit with
  | zero => exact absurd hneed (Nat.not_succ_le_zero _)
  | succ limit =>
    have hstop : ∀ t ∈ rest.head?, ¬ (!terminator.fits t) = true := by
      intro t ht
      simp [(hends t).2 (hrest t ht)]
    exact many_reads_nil (statement (innerAt limit)) hstop

/-- A block is read on through a statement that does not start with a word that ends it. -/
lemma isRead_statements {enders : List String} {s : Stmt} {ss : List Stmt}
    (hd : Derives ts (.statement s)) (h : IsRead ts (.statement s))
    (hstart : StartsOutside enders ts) (hss : IsRead us (.block enders ss)) :
    IsRead (ts ++ us) (.block enders (s :: ss)) := by
  intro limit terminator rest hneed hends hrest
  cases limit with
  | zero => exact absurd hneed (Nat.not_succ_le_zero _)
  | succ limit =>
    obtain ⟨hneedFirst, hneedRest⟩ := Nat.max_le.1 (Nat.le_of_succ_le_succ hneed)
    have hfirst := h limit (us ++ rest) hneedFirst
    have hblock := hss (limit + 1) terminator rest (Nat.succ_le_succ hneedRest) hends hrest
    obtain ⟨t, ts, rfl⟩ := List.exists_cons_of_ne_nil hd.statement_ne_nil
    have hcontinues : (!terminator.fits t) = true := by
      have hfits : ¬ terminator.fits t := fun hfits => hstart t rfl ((hends t).1 hfits)
      simpa using hfits
    have hstatements : (statements (innerAt limit) terminator).Reads (t :: ts ++ us) (s :: ss)
        rest := many_reads_cons hcontinues hfirst hblock
    exact hstatements

/-- A block between its words is read. -/
lemma isRead_body {doWord endWord : Token} {ss : List Stmt} (hdo : doWord.literal = "DO")
    (h : IsRead ts (.block blockEnders ss)) (hend : endWord.literal = "END") :
    IsRead (doWord :: (ts ++ [endWord])) (.body ss) := by
  intro limit rest hneed
  have hblock : ((innerAt limit).block (.literal "END")).Reads ts ss (endWord :: rest) :=
    h limit _ _ hneed ends_blockEnders (by simpa [blockEnders] using hend)
  have hrule : (enclosed (innerAt limit)).Reads ([doWord] ++ (ts ++ [endWord])) ss rest :=
    (word_reads hdo _).bind (Reads.bind hblock (word_reads hend rest).map)
  exact hrule

lemma isRead_noElse : IsRead [] (.otherwise []) := by
  intro limit rest _ hrest
  refine ⟨none, rfl, introduced_reads_nil _ fun t ht hmem => ?_⟩
  rw [hrest t ht] at hmem
  exact absurd hmem (by decide)

lemma isRead_otherwise {word : Token} {ss : List Stmt} (hword : word.literal = "ELSE")
    (h : IsRead ts (.block blockEnders ss)) : IsRead (word :: ts) (.otherwise ss) := by
  intro limit rest hneed hrest
  have hblock : (block limit (.literal "END")).Reads ts ss rest :=
    h limit _ _ hneed ends_blockEnders fun t ht => by simp [hrest t ht, blockEnders]
  exact ⟨some ss, rfl, introduced_reads hword hblock⟩

/-! ## Methods and programs -/

lemma readsItems_identifier :
    ReadsItems identifier fun ts name => IsName ts name ∧ ∀ t ∈ ts, t.WellSpelled where
  starts ts name h := by
    obtain ⟨⟨t, rfl, hkind, -⟩, hts⟩ := h
    refine ⟨List.cons_ne_nil t [], startsOutside_cons.2 fun hmem => ?_⟩
    have hoperator := (hts t List.mem_cons_self).kind_of_mark
      (by simp [List.mem_singleton.1 hmem])
    simp [hkind] at hoperator
  reads ts name u rest h _ := by
    obtain ⟨⟨t, rfl, hkind, rfl⟩, -⟩ := h
    exact identifier_reads hkind (u :: rest)

/-- A method is read with its parameters and its block. -/
lemma isRead_method {word : Token} {names : List String} {ss : List Stmt}
    (hword : word.literal = "DEF") (ht : t.kind = .identifier) (hl : l.literal = "(")
    (hnames : Listed IsName ts names) (hts : ∀ t ∈ ts, t.WellSpelled) (hr : r.literal = ")")
    (h : IsRead us (.body ss)) :
    IsRead (word :: t :: l :: (ts ++ r :: us)) (.method ⟨t.literal, names, ss⟩) := by
  intro limit rest hneed
  have hlisted : Listed (fun ts name => IsName ts name ∧ ∀ t ∈ ts, t.WellSpelled) ts names :=
    hnames.imp id fun hseparated => hseparated.and_tokens hts
  have hparameters := parenthesized_reads readsItems_identifier hlisted hr (us ++ rest)
  have hbody := h limit rest hneed
  have hmethod : (method (innerAt limit)).Reads ([word] ++ ([t] ++ ([l] ++ (ts ++ [r] ++ us))))
      ⟨t.literal, names, ss⟩ rest :=
    (word_reads hword _).bind ((identifier_reads ht _).bind
      ((word_reads hl _).bind (hparameters.bind hbody.map)))
  simpa using hmethod

/-- Every phrase that is derived is read, one case for each production. -/
theorem isRead_of_derives {phrase : Phrase} (h : Derives ts phrase)
    (hts : ∀ t ∈ ts, t.WellSpelled) : IsRead ts phrase := by
  induction h with
  | literal hv =>
    intro limit rest _ _
    exact primary_reads_literal (opening_of_denotes (hts _ List.mem_cons_self) hv) rest
  | group hl _ hr ih =>
    simp only [List.forall_mem_cons, List.forall_mem_append] at hts
    exact isRead_group (opening_of_paren hts.1 hl) (ih hts.2.1) hr
  | var ht =>
    intro limit rest _ hrest
    exact primary_reads_var (opening_of_isVariable (hts _ List.mem_cons_self) ht) hrest
  | call ht hl _ hr ih =>
    simp only [List.forall_mem_cons, List.forall_mem_append] at hts
    intro limit rest hneed _
    have harguments := ih hts.2.2.1 limit _ rest hneed hr
    exact primary_reads_call (opening_of_isVariable hts.1 ht) hl harguments
  | ofPrimary _ ih => exact isRead_ofPrimary (ih hts)
  | member _ hdot ht ih =>
    rw [List.forall_mem_append] at hts
    exact isRead_member (ih hts.1) hdot ht
  | invoke _ hdot ht hl _ hr ih ihArguments =>
    simp only [List.forall_mem_cons, List.forall_mem_append] at hts
    exact isRead_invoke (ih hts.1) hdot ht hl (ihArguments hts.2.2.2.2.1) hr
  | ofOperand _ ih => exact isRead_ofOperand (ih hts)
  | binary _ hop _ ih ihRight =>
    simp only [List.forall_mem_cons, List.forall_mem_append] at hts
    exact isRead_binary (ih hts.1) hop (ihRight hts.2.2)
  | oneExpression hd ih =>
    intro limit hneed
    exact .one (isItem_of_isRead hd hts (ih hts) (Nat.max_le.1 hneed).1)
  | moreExpressions hd hcomma _ ih ihRest =>
    simp only [List.forall_mem_cons, List.forall_mem_append] at hts
    intro limit hneed
    obtain ⟨hneedFirst, hneedRest⟩ := Nat.max_le.1 hneed
    exact .more (isItem_of_isRead hd hts.1 (ih hts.1) hneedFirst) hcomma
      (ihRest hts.2.2 limit hneedRest)
  | noArguments => exact isRead_noArguments
  | arguments _ ih => exact isRead_arguments (ih hts)
  | noValue => exact isRead_noValue
  | value heq _ ih => exact isRead_value heq (ih (List.forall_mem_cons.1 hts).2)
  | field hword ht htype hd hsemicolon ih =>
    simp only [List.forall_mem_cons, List.forall_mem_append] at hts
    exact isRead_field hword ht htype hd (ih hts.2.2.2.1) hsemicolon
  | declaration hd ih => exact isRead_declaration hd (ih hts)
  | conditional hword _ hdo _ hd hend ih ihThen ihElse =>
    simp only [List.forall_mem_cons, List.forall_mem_append] at hts
    obtain ⟨-, hcondition, -, hthen, helse, -⟩ := hts
    exact isRead_conditional hword (ih hcondition) hdo (ihThen hthen) hd (ihElse helse) hend
  | forEach hword ht hin _ hd ih ihBody =>
    simp only [List.forall_mem_cons, List.forall_mem_append] at hts
    exact isRead_forEach hword ht hin (ih hts.2.2.2.1) hd (ihBody hts.2.2.2.2)
  | whileLoop hword _ hd ih ihBody =>
    simp only [List.forall_mem_cons, List.forall_mem_append] at hts
    exact isRead_whileLoop hword (ih hts.2.1) hd (ihBody hts.2.2)
  | noResult hword hsemicolon => exact isRead_noResult hword hsemicolon
  | result hword hd hsemicolon ih =>
    simp only [List.forall_mem_cons, List.forall_mem_append] at hts
    exact isRead_result hword hd hts.2.1 (ih hts.2.1) hsemicolon
  | expression hd hstart hsemicolon ih =>
    rw [List.forall_mem_append] at hts
    exact isRead_expression hd (ih hts.1) hstart hsemicolon
  | assignment hd hstart heq _ hsemicolon ih ihValue =>
    simp only [List.forall_mem_cons, List.forall_mem_append] at hts
    exact isRead_assignment hd (ih hts.1) hstart heq (ihValue hts.2.2.1) hsemicolon
  | noStatements => exact isRead_noStatements
  | statements hd hstart _ ih ihRest =>
    rw [List.forall_mem_append] at hts
    exact isRead_statements hd (ih hts.1) hstart (ihRest hts.2)
  | body hdo _ hend ih =>
    simp only [List.forall_mem_cons, List.forall_mem_append] at hts
    exact isRead_body hdo (ih hts.2.1) hend
  | noElse => exact isRead_noElse
  | otherwise hword _ ih => exact isRead_otherwise hword (ih (List.forall_mem_cons.1 hts).2)
  | method hword ht hl hnames hr _ ih =>
    simp only [List.forall_mem_cons, List.forall_mem_append] at hts
    exact isRead_method hword ht hl hnames hts.2.2.2.1 hr (ih hts.2.2.2.2.2)
  | noMethods => trivial
  | methods _ _ _ _ => trivial
  | fields _ _ _ _ => trivial

/-- A program without fields is a sequence of methods. -/
lemma methods_sequence {ms : List Method} (h : Derives ts (.program ⟨[], ms⟩)) :
    Sequence (fun ts m => Derives ts (.method m)) ts ms := by
  induction ms generalizing ts with
  | nil =>
    cases h
    exact .nil
  | cons m ms ih =>
    cases h with
    | methods hm h => exact .cons hm (ih h)

/-- A program is a sequence of fields and a sequence of methods. -/
lemma program_parts {bs : List Binding} {ms : List Method}
    (h : Derives ts (.program ⟨bs, ms⟩)) : ∃ us vs, ts = us ++ vs ∧
      Sequence (fun ts b => Derives ts (.field b)) us bs ∧
      Sequence (fun ts m => Derives ts (.method m)) vs ms := by
  induction bs generalizing ts with
  | nil => exact ⟨[], ts, rfl, .nil, methods_sequence h⟩
  | cons b bs ih =>
    cases h with
    | @fields us _ _ _ _ hb h =>
      obtain ⟨us', vs, rfl, hbs, hms⟩ := ih h
      exact ⟨us ++ us', vs, (List.append_assoc _ _ _).symm, .cons hb hbs, hms⟩

/-- Where the tokens of a program are ahead, the rule for programs reads them, unless what follows
is another part of a program.  Whether it then succeeds depends on what follows alone. -/
theorem program_eq_of_derives {limit : Nat} {p : Program} {rest : List Token}
    (h : Derives ts (.program p)) (hts : ∀ t ∈ ts, t.WellSpelled) (hneed : p.need ≤ limit)
    (hmethod : StartsOutside ["DEF"] rest) (hfield : p.methods = [] → StartsOutside ["LET"] rest)
    (stop : Nat) :
    program (innerAt limit) ⟨ts ++ rest, stop⟩ =
      (endOfProgram >>= fun _ => pure p) ⟨rest, stop⟩ := by
  rcases p with ⟨bs, ms⟩
  obtain ⟨us, vs, rfl, hbs, hms⟩ := program_parts h
  obtain ⟨hneedFields, hneedMethods⟩ := Program.need_le_iff.1 hneed
  rw [List.forall_mem_append] at hts
  have hstart : StartsOutside ["LET"] (vs ++ rest) := by
    cases hms with
    | nil => exact hfield rfl
    | cons hm _ =>
      obtain ⟨t, _, rfl, ht⟩ := hm.method_starts
      rw [List.cons_append, List.cons_append, startsOutside_cons, ht]
      decide
  have hfields : (manyFrom "LET" (letBinding (innerAt limit).expression)).Reads us bs
      (vs ++ rest) := by
    refine manyFrom_reads (hbs.and_all hts.1 hneedFields) ?_ hstart
    intro ts b h
    obtain ⟨hd, hts, hneed⟩ := h
    exact ⟨hd.field_starts, fun rest => isRead_of_derives hd hts limit rest hneed⟩
  have hmethods : (manyFrom "DEF" (method (innerAt limit))).Reads vs ms rest := by
    refine manyFrom_reads (hms.and_all hts.2 hneedMethods) ?_ hmethod
    intro ts m h
    obtain ⟨hd, hts, hneed⟩ := h
    exact ⟨hd.method_starts, fun rest => isRead_of_derives hd hts limit rest hneed⟩
  rw [List.append_assoc, program, bind_of_ok (hfields stop), bind_of_ok (hmethods stop),
    liftM_rule]

/-- Where the tokens of a program are ahead and nothing else, the rule for programs reads them all
and answers the program. -/
theorem program_reads {limit : Nat} {p : Program} (h : Derives ts (.program p))
    (hts : ∀ t ∈ ts, t.WellSpelled) (hneed : p.need ≤ limit) (stop : Nat) :
    program (innerAt limit) ⟨ts, stop⟩ = .ok p ⟨[], stop⟩ := by
  have houtside : ∀ words, StartsOutside words [] := by simp [StartsOutside]
  have hread := program_eq_of_derives h hts hneed (houtside _) (fun _ => houtside _) stop
  rw [List.append_nil] at hread
  rw [hread, bind_of_ok (endOfProgram_eq_ok_iff.2 ⟨rfl, rfl⟩)]
  rfl

end Grammar

end LetDef
