import LetDef.Proofs.Grammar.Agreement
import LetDef.Proofs.Printing.Words

/-!
# Well-formed programs are read back

The words of a well-formed program are words of the language, so its text is cut into them.  What
is left to show is that the grammar derives the program from tokens with those words as literals.
This goes by induction on what it means to be well-formed, and where the tokens stand in a text does
not matter.

An expression is derived at every rank that its operator is tight enough for.  That is where the
conditions on the operands of an operator and on receivers are used: they say that the operand is
tight enough for the rank that the grammar asks for at its place.
-/

namespace LetDef

/-! ## Tokens with given literals -/

/-- The tokens are words of their kinds, and their literals are the words given. -/
def SpelledAs (ws : List String) (ts : List Token) : Prop :=
  (∀ t ∈ ts, t.WellSpelled) ∧ ts.map Token.literal = ws

lemma spelledAs_nil {ts : List Token} : SpelledAs [] ts ↔ ts = [] := by
  constructor
  · exact fun h => List.map_eq_nil_iff.1 h.2
  · rintro rfl
    exact ⟨List.forall_mem_nil _, rfl⟩

/-- Tokens with given texts begin with a token with the first text. -/
lemma spelledAs_cons {w : String} {ws : List String} {ts : List Token} :
    SpelledAs (w :: ws) ts ↔
      ∃ t us, ts = t :: us ∧ t.WellSpelled ∧ t.literal = w ∧ SpelledAs ws us := by
  constructor
  · rintro ⟨hts, hmap⟩
    obtain ⟨t, us, rfl, hw, hws⟩ := List.map_eq_cons_iff.1 hmap
    obtain ⟨ht, hus⟩ := List.forall_mem_cons.1 hts
    exact ⟨t, us, rfl, ht, hw, hus, hws⟩
  · rintro ⟨t, us, rfl, ht, rfl, hus, rfl⟩
    exact ⟨List.forall_mem_cons.2 ⟨ht, hus⟩, rfl⟩

/-- Tokens with given texts fall into two parts as the texts do. -/
lemma spelledAs_append {ws vs : List String} {ts : List Token} :
    SpelledAs (ws ++ vs) ts ↔ ∃ us rest, ts = us ++ rest ∧ SpelledAs ws us ∧ SpelledAs vs rest := by
  constructor
  · rintro ⟨hts, hmap⟩
    obtain ⟨us, rest, rfl, hws, hvs⟩ := List.map_eq_append_iff.1 hmap
    obtain ⟨hus, hrest⟩ := List.forall_mem_append.1 hts
    exact ⟨us, rest, rfl, ⟨hus, hws⟩, hrest, hvs⟩
  · rintro ⟨us, rest, rfl, ⟨hus, rfl⟩, hrest, rfl⟩
    exact ⟨List.forall_mem_append.2 ⟨hus, hrest⟩, List.map_append⟩

lemma spelledAs_singleton {w : String} {ts : List Token} :
    SpelledAs [w] ts ↔ ∃ t, ts = [t] ∧ t.WellSpelled ∧ t.literal = w := by
  simp [spelledAs_cons, spelledAs_nil]

/-- A token whose text is a name is one. -/
lemma Token.WellSpelled.kind_of_isIdentifier {t : Token} (ht : t.WellSpelled)
    (h : IsIdentifier t.literal) : t.kind = .identifier :=
  ht.kind_eq h

/-- What tokens start with can be seen from the first of their texts. -/
lemma startsOutside_of_spelledAs {ws words : List String} {ts : List Token}
    (h : SpelledAs ws ts) (hws : ∀ w ∈ ws.head?, w ∉ words) : StartsOutside words ts := by
  rcases h with ⟨-, rfl⟩
  intro t ht
  apply hws
  rw [List.head?_map, Option.mem_def.1 ht]
  rfl

/-! ## Ranks -/

/-- How tightly the expressions of a rank hold together. -/
def Rank.tightness : Rank → Nat
  | .level l => l.tightness
  | .secondary => 4
  | .primary => 5

/-- Operands bind one step tighter than the level they are operands of. -/
lemma tightness_operand (level : Level) : level.operand.tightness = level.tightness + 1 := by
  cases level <;> rfl

lemma eq_level_of_tightness_eq {rank : Rank} {level : Level}
    (h : rank.tightness = level.tightness) : rank = .level level := by
  rcases rank with l | _ | _
  · cases l <;> cases level <;> first | rfl | exact absurd h (by decide)
  · cases level <;> exact absurd h (by decide)
  · cases level <;> exact absurd h (by decide)

/-- An expression of a rank is one of every looser rank. -/
theorem Derives.loosen {ts : List Token} {e : Expr} {rank rank' : Rank}
    (hd : Derives ts (.expression rank e)) (hle : rank'.tightness ≤ rank.tightness) :
    Derives ts (.expression rank' e) := by
  have hsecondary (hle : Rank.secondary.tightness ≤ rank.tightness) :
      Derives ts (.expression .secondary e) := by
    rcases rank with level | _ | _
    · cases level <;> exact absurd hle (by decide)
    · exact hd
    · exact .ofPrimary hd
  have hlevel (level : Level)
      (hoperand : level.operand.tightness ≤ rank.tightness →
        Derives ts (.expression level.operand e))
      (hle : level.tightness ≤ rank.tightness) : Derives ts (.expression (.level level) e) := by
    by_cases heq : rank.tightness = level.tightness
    · rwa [← eq_level_of_tightness_eq heq]
    · apply Derives.ofOperand
      apply hoperand
      rw [tightness_operand]
      omega
  have hmultiplicative := hlevel .multiplicative hsecondary
  have hadditive := hlevel .additive hmultiplicative
  have hequality := hlevel .equality hadditive
  have hlogical := hlevel .logical hequality
  rcases rank' with level | _ | _
  · cases level
    · exact hlogical hle
    · exact hequality hle
    · exact hadditive hle
    · exact hmultiplicative hle
  · exact hsecondary hle
  · rcases rank with level | _ | _
    · cases level <;> exact absurd hle (by decide)
    · exact absurd hle (by decide)
    · exact hd

/-- The operator of the expression, if it is made by one, is tight enough for the rank. -/
def Expr.FitsRank (rank : Rank) (e : Expr) : Prop :=
  ∀ level, e.HasLevel level → rank.tightness ≤ level.tightness

lemma fitsRank_whole (e : Expr) : e.FitsRank .whole :=
  fun _ _ => Nat.zero_le _

/-- An expression without an operator on top fits everywhere an operand does. -/
lemma fitsRank_of_not_isBinary {rank : Rank} {e : Expr} (h : ¬ e.IsBinary) :
    e.FitsRank rank :=
  fun level hlevel => absurd hlevel (not_hasLevel_of_not_isBinary h level)

/-! ## Expressions -/

/-- Tokens with the words of the expression spell it, at every rank that it fits.  Primary
expressions are left out, because a chain has no operator and is none. -/
def Expr.ReadsBack (e : Expr) : Prop :=
  ∀ ts, SpelledAs e.words ts → ∀ rank, rank ≠ .primary → e.FitsRank rank →
    Derives ts (.expression rank e)

variable {ts : List Token} {e : Expr}

lemma Expr.ReadsBack.whole (h : e.ReadsBack) (hts : SpelledAs e.words ts) :
    Derives ts (.expression .whole e) :=
  h ts hts .whole (by decide) (fitsRank_whole e)

/-- A primary expression is an expression of every rank. -/
lemma Derives.loosen_primary (hd : Derives ts (.expression .primary e)) (rank : Rank) :
    Derives ts (.expression rank e) := by
  apply hd.loosen
  rcases rank with level | _ | _
  · cases level <;> decide
  · decide
  · decide

/-- An expression without operators is an expression of every rank but the tightest. -/
lemma Derives.loosen_secondary (hd : Derives ts (.expression .secondary e)) {rank : Rank}
    (h : rank ≠ .primary) : Derives ts (.expression rank e) := by
  apply hd.loosen
  rcases rank with level | _ | _
  · cases level <;> decide
  · decide
  · exact absurd rfl h

/-- Lists read back if their items do; the comma is where one item ends and the next one begins. -/
lemma derives_expressions_of_words {es : List Expr} (h : ∀ e ∈ es, e.ReadsBack) (hne : es ≠ [])
    (hts : SpelledAs (Expr.listWords es) ts) : Derives ts (.expressions es) := by
  induction es generalizing ts with
  | nil => exact absurd rfl hne
  | cons e es ih =>
    obtain ⟨he, hes⟩ := List.forall_mem_cons.1 h
    rcases es with _ | ⟨f, es⟩
    · exact .oneExpression (he.whole hts)
    · rw [Expr.listWords, spelledAs_append] at hts
      obtain ⟨us, _, rfl, hus, hrest⟩ := hts
      obtain ⟨comma, vs, rfl, -, hcomma, hvs⟩ := spelledAs_cons.1 hrest
      exact .moreExpressions (he.whole hus) hcomma (ih hes (List.cons_ne_nil f es) hvs)

/-- Arguments read back, also if there are none. -/
lemma derives_arguments_of_words {es : List Expr} (h : ∀ e ∈ es, e.ReadsBack)
    (hts : SpelledAs (Expr.listWords es) ts) : Derives ts (.arguments es) := by
  by_cases hes : es = []
  · subst hes
    rw [spelledAs_nil.1 hts]
    exact .noArguments
  · exact .arguments (derives_expressions_of_words h hes hts)

/-- Every expression is written with at least one word. -/
lemma Expr.WellFormed.words_ne_nil (h : e.WellFormed) : e.words ≠ [] := by
  induction h with
  | binary _ _ _ _ _ ih _ => exact List.append_ne_nil_of_left_ne_nil ih _
  | member _ _ _ ih => exact List.append_ne_nil_of_left_ne_nil ih _
  | invoke _ _ _ _ ih _ => exact List.append_ne_nil_of_left_ne_nil ih _
  | _ => exact List.cons_ne_nil _ _

/-- The tokens of a list between parentheses. -/
lemma spelledAs_parenthesized {ws : List String} :
    SpelledAs ("(" :: (ws ++ [")"])) ts ↔ ∃ l us r, ts = l :: (us ++ [r]) ∧
      l.WellSpelled ∧ r.WellSpelled ∧ l.literal = "(" ∧ SpelledAs ws us ∧ r.literal = ")" := by
  rw [spelledAs_cons]
  constructor
  · rintro ⟨l, _, rfl, hl, hopen, hrest⟩
    obtain ⟨us, _, rfl, hus, hr⟩ := spelledAs_append.1 hrest
    obtain ⟨r, rfl, hr, hclose⟩ := spelledAs_singleton.1 hr
    exact ⟨l, us, r, rfl, hl, hr, hopen, hus, hclose⟩
  · rintro ⟨l, us, r, rfl, hl, hr, hopen, hus, hclose⟩
    exact ⟨l, _, rfl, hl, hopen, spelledAs_append.2 ⟨us, [r], rfl, hus,
      spelledAs_singleton.2 ⟨r, rfl, hr, hclose⟩⟩⟩

/-- An expression reads back from its words.  The induction shows it for all ranks at once, since
operands read back at tighter ranks than the whole. -/
theorem Expr.WellFormed.readsBack (h : e.WellFormed) : e.ReadsBack := by
  induction h with
  | literal hv =>
    intro ts hts rank _ _
    obtain ⟨t, rfl, ht, hword⟩ := spelledAs_singleton.1 hts
    exact (Derives.literal (denotes_of_word ht hv hword)).loosen_primary rank
  | group _ ih =>
    intro ts hts rank _ _
    obtain ⟨l, us, r, rfl, -, -, hl, hus, hr⟩ := spelledAs_parenthesized.1 hts
    exact (Derives.group hl (ih.whole hus) hr).loosen_primary rank
  | @binary level op left right hop _ _ hleft hright ihLeft ihRight =>
    intro ts hts rank _ hfits
    obtain ⟨us, _, rfl, hus, hrest⟩ := spelledAs_append.1 hts
    obtain ⟨t, vs, rfl, -, rfl, hvs⟩ := spelledAs_cons.1 hrest
    have hderivesLeft : Derives us (.expression (.level level) left) :=
      ihLeft us hus _ (by simp) hleft
    have hderivesRight : Derives vs (.expression level.operand right) := by
      apply ihRight vs hvs
      · cases level <;> simp [Level.operand]
      · intro l hl
        rw [tightness_operand]
        exact hright l hl
    have hbinary := Derives.binary hderivesLeft hop hderivesRight
    exact hbinary.loosen (hfits level ⟨_, left, right, rfl, hop⟩)
  | var hname hconstant =>
    intro ts hts rank _ _
    obtain ⟨t, rfl, ht, rfl⟩ := spelledAs_singleton.1 hts
    exact (Derives.var ⟨ht.kind_of_isIdentifier hname, hconstant⟩).loosen_primary rank
  | member _ hbinary hname ih =>
    intro ts hts rank hrank _
    obtain ⟨us, _, rfl, hus, hrest⟩ := spelledAs_append.1 hts
    obtain ⟨dot, _, rfl, -, hdot, hlast⟩ := spelledAs_cons.1 hrest
    obtain ⟨t, rfl, ht, rfl⟩ := spelledAs_singleton.1 hlast
    have hreceiver := ih us hus .secondary (by decide) (fitsRank_of_not_isBinary hbinary)
    exact (Derives.member hreceiver hdot (ht.kind_of_isIdentifier hname)).loosen_secondary hrank
  | call hname hconstant _ ih =>
    intro ts hts rank _ _
    obtain ⟨t, _, rfl, ht, rfl, hrest⟩ := spelledAs_cons.1 hts
    obtain ⟨l, us, r, rfl, -, -, hl, hus, hr⟩ := spelledAs_parenthesized.1 hrest
    have hcall := Derives.call ⟨ht.kind_of_isIdentifier hname, hconstant⟩ hl
      (derives_arguments_of_words ih hus) hr
    exact hcall.loosen_primary rank
  | invoke _ hbinary hname _ ih ihArguments =>
    intro ts hts rank hrank _
    obtain ⟨us, _, rfl, hus, hrest⟩ := spelledAs_append.1 hts
    obtain ⟨dot, _, rfl, -, hdot, hcall⟩ := spelledAs_cons.1 hrest
    obtain ⟨t, _, rfl, ht, rfl, hlist⟩ := spelledAs_cons.1 hcall
    obtain ⟨l, vs, r, rfl, -, -, hl, hvs, hr⟩ := spelledAs_parenthesized.1 hlist
    have hreceiver := ih us hus .secondary (by decide) (fitsRank_of_not_isBinary hbinary)
    have hinvoke := Derives.invoke hreceiver hdot (ht.kind_of_isIdentifier hname) hl
      (derives_arguments_of_words ihArguments hvs) hr
    exact hinvoke.loosen_secondary hrank

/-! ## Fields and statements -/

lemma typePart_of_words {typeName : Option String} (h : ∀ name ∈ typeName, IsIdentifier name)
    (hts : SpelledAs (typeWords typeName) ts) : TypePart ts typeName := by
  cases typeName with
  | none =>
    rw [spelledAs_nil.1 hts]
    exact .none
  | some name =>
    obtain ⟨colon, _, rfl, -, hcolon, hname⟩ := spelledAs_cons.1 hts
    obtain ⟨t, rfl, ht, rfl⟩ := spelledAs_singleton.1 hname
    exact .some hcolon (ht.kind_of_isIdentifier (h _ rfl))

/-- The value of a binding reads back, also if it is left out. -/
lemma derives_value_of_words {value : Option Expr} (h : ∀ e ∈ value, e.WellFormed)
    (hts : SpelledAs (valueWords value) ts) : Derives ts (.value value) := by
  cases value with
  | none =>
    rw [spelledAs_nil.1 hts]
    exact .noValue
  | some e =>
    obtain ⟨eq, us, rfl, -, heq, hus⟩ := spelledAs_cons.1 hts
    exact .value heq ((h e rfl).readsBack.whole hus)

/-- A field reads back from its words. -/
theorem Binding.WellFormed.derives {b : Binding} (h : b.WellFormed)
    (hts : SpelledAs b.words ts) : Derives ts (.field b) := by
  rcases b with ⟨name, typeName, value⟩
  obtain ⟨word, _, rfl, -, hword, hrest⟩ := spelledAs_cons.1 hts
  obtain ⟨t, _, rfl, ht, rfl, hparts⟩ := spelledAs_cons.1 hrest
  obtain ⟨us, _, rfl, hus, hvalue⟩ := spelledAs_append.1 hparts
  obtain ⟨vs, _, rfl, hvs, hlast⟩ := spelledAs_append.1 hvalue
  obtain ⟨semicolon, rfl, -, hsemicolon⟩ := spelledAs_singleton.1 hlast
  exact .field hword (ht.kind_of_isIdentifier h.name) (typePart_of_words h.typeName hus)
    (derives_value_of_words h.value hvs) hsemicolon

/-- The words that decide on the form of a statement end no block, so only statements that start
with an expression have to be told from the end of their block. -/
lemma Stmt.WellFormed.startsOutside {enders : List String} {s : Stmt} (h : s.WellFormed enders)
    (henders : ∀ w ∈ statementWords, w ∉ enders) (hts : SpelledAs s.words ts) :
    StartsOutside enders ts := by
  have hexpression : ∀ {e : Expr} {ws : List String}, e.WellFormed → e.StartsStatement enders →
      ∀ w ∈ (e.words ++ ws).head?, w ∉ enders := by
    intro e ws he hstart w hw
    obtain ⟨v, vs, hwords⟩ := List.exists_cons_of_ne_nil he.words_ne_nil
    rw [Expr.StartsStatement, hwords] at hstart
    rw [hwords] at hw
    exact (hstart w hw).2
  have hform : ∀ {word : String} {ws : List String}, word ∈ statementWords →
      ∀ w ∈ (word :: ws).head?, w ∉ enders := by
    intro word ws hword w hw
    obtain rfl := Option.some.inj hw
    exact henders _ hword
  apply startsOutside_of_spelledAs hts
  cases h with
  | expression he hstart => exact hexpression he hstart
  | declaration _ => exact hform (by decide)
  | assignment he hstart _ => exact hexpression he hstart
  | conditional _ _ _ => exact hform (by decide)
  | forEach _ _ _ => exact hform (by decide)
  | whileLoop _ _ => exact hform (by decide)
  | @result _ value _ => cases value <;> exact hform (by decide)

/-- A block reads back if its statements do and none of them starts with a word that ends the block.
-/
lemma derives_block_of_words {enders : List String} {ss : List Stmt}
    (henders : ∀ w ∈ statementWords, w ∉ enders) (hss : ∀ s ∈ ss, s.WellFormed enders)
    (h : ∀ s ∈ ss, ∀ ts, SpelledAs s.words ts → Derives ts (.statement s))
    (hts : SpelledAs (Stmt.blockWords ss) ts) : Derives ts (.block enders ss) := by
  induction ss generalizing ts with
  | nil =>
    rw [spelledAs_nil.1 hts]
    exact .noStatements
  | cons s ss ih =>
    obtain ⟨hs, hss⟩ := List.forall_mem_cons.1 hss
    obtain ⟨hd, h⟩ := List.forall_mem_cons.1 h
    obtain ⟨us, vs, rfl, hus, hvs⟩ := spelledAs_append.1 hts
    exact .statements (hd us hus) (hs.startsOutside henders hus) (ih hss h hvs)

lemma not_mem_blockEnders : ∀ w ∈ statementWords, w ∉ blockEnders := by
  decide

lemma not_mem_thenEnders : ∀ w ∈ statementWords, w ∉ thenEnders := by
  decide

/-- A block between its words reads back. -/
lemma derives_body_of_words {ss : List Stmt} (hss : ∀ s ∈ ss, s.WellFormed blockEnders)
    (h : ∀ s ∈ ss, ∀ ts, SpelledAs s.words ts → Derives ts (.statement s))
    (hts : SpelledAs ("DO" :: (Stmt.blockWords ss ++ ["END"])) ts) : Derives ts (.body ss) := by
  obtain ⟨doWord, _, rfl, -, hdo, hrest⟩ := spelledAs_cons.1 hts
  obtain ⟨us, _, rfl, hus, hlast⟩ := spelledAs_append.1 hrest
  obtain ⟨endWord, rfl, -, hend⟩ := spelledAs_singleton.1 hlast
  exact .body hdo (derives_block_of_words not_mem_blockEnders hss h hus) hend

/-- The second block of a choice reads back; an empty one has not been written. -/
lemma derives_otherwise_of_words {ss : List Stmt} (hss : ∀ s ∈ ss, s.WellFormed blockEnders)
    (h : ∀ s ∈ ss, ∀ ts, SpelledAs s.words ts → Derives ts (.statement s))
    (hts : SpelledAs (elseWords ss) ts) : Derives ts (.otherwise ss) := by
  rcases ss with _ | ⟨s, ss⟩
  · rw [spelledAs_nil.1 hts]
    exact .noElse
  · obtain ⟨word, us, rfl, -, hword, hus⟩ := spelledAs_cons.1 hts
    exact .otherwise hword (derives_block_of_words not_mem_blockEnders hss h hus)

/-- A statement reads back from its words, and so do the blocks in it. -/
theorem Stmt.WellFormed.derives {enders : List String} {s : Stmt} (h : s.WellFormed enders)
    (ts : List Token) (hts : SpelledAs s.words ts) : Derives ts (.statement s) := by
  induction h generalizing ts with
  | expression he hstart =>
    obtain ⟨us, _, rfl, hus, hlast⟩ := spelledAs_append.1 hts
    obtain ⟨semicolon, rfl, -, hsemicolon⟩ := spelledAs_singleton.1 hlast
    have hfirst := startsOutside_of_spelledAs hus fun w hw => (hstart w hw).1
    exact .expression (he.readsBack.whole hus) hfirst hsemicolon
  | declaration hb => exact .declaration (hb.derives hts)
  | assignment he hstart hf =>
    obtain ⟨us, _, rfl, hus, hrest⟩ := spelledAs_append.1 hts
    obtain ⟨eq, _, rfl, -, heq, hvalue⟩ := spelledAs_cons.1 hrest
    obtain ⟨vs, _, rfl, hvs, hlast⟩ := spelledAs_append.1 hvalue
    obtain ⟨semicolon, rfl, -, hsemicolon⟩ := spelledAs_singleton.1 hlast
    have hfirst := startsOutside_of_spelledAs hus fun w hw => (hstart w hw).1
    exact .assignment (he.readsBack.whole hus) hfirst heq (hf.readsBack.whole hvs) hsemicolon
  | conditional he hthen helse ihThen ihElse =>
    obtain ⟨word, _, rfl, -, hword, hrest⟩ := spelledAs_cons.1 hts
    obtain ⟨us, _, rfl, hus, hblocks⟩ := spelledAs_append.1 hrest
    obtain ⟨doWord, _, rfl, -, hdo, hthenBlock⟩ := spelledAs_cons.1 hblocks
    obtain ⟨vs, _, rfl, hvs, helseBlock⟩ := spelledAs_append.1 hthenBlock
    obtain ⟨ws, _, rfl, hws, hlast⟩ := spelledAs_append.1 helseBlock
    obtain ⟨endWord, rfl, -, hend⟩ := spelledAs_singleton.1 hlast
    exact .conditional hword (he.readsBack.whole hus) hdo
      (derives_block_of_words not_mem_thenEnders hthen ihThen hvs)
      (derives_otherwise_of_words helse ihElse hws) hend
  | forEach hname he hbody ih =>
    obtain ⟨word, _, rfl, -, hword, hrest⟩ := spelledAs_cons.1 hts
    obtain ⟨t, _, rfl, ht, rfl, hsource⟩ := spelledAs_cons.1 hrest
    obtain ⟨inWord, _, rfl, -, hin, hvalue⟩ := spelledAs_cons.1 hsource
    obtain ⟨us, vs, rfl, hus, hvs⟩ := spelledAs_append.1 hvalue
    exact .forEach hword (ht.kind_of_isIdentifier hname) hin (he.readsBack.whole hus)
      (derives_body_of_words hbody ih hvs)
  | whileLoop he hbody ih =>
    obtain ⟨word, _, rfl, -, hword, hrest⟩ := spelledAs_cons.1 hts
    obtain ⟨us, vs, rfl, hus, hvs⟩ := spelledAs_append.1 hrest
    exact .whileLoop hword (he.readsBack.whole hus) (derives_body_of_words hbody ih hvs)
  | @result _ value hvalue =>
    cases value with
    | none =>
      obtain ⟨word, _, rfl, -, hword, hlast⟩ := spelledAs_cons.1 hts
      obtain ⟨semicolon, rfl, -, hsemicolon⟩ := spelledAs_singleton.1 hlast
      exact .noResult hword hsemicolon
    | some e =>
      obtain ⟨word, _, rfl, -, hword, hrest⟩ := spelledAs_cons.1 hts
      obtain ⟨us, _, rfl, hus, hlast⟩ := spelledAs_append.1 hrest
      obtain ⟨semicolon, rfl, -, hsemicolon⟩ := spelledAs_singleton.1 hlast
      exact .result hword ((hvalue e rfl).readsBack.whole hus) hsemicolon

/-! ## Methods and programs -/

lemma listed_of_words {names : List String} (h : ∀ name ∈ names, IsIdentifier name)
    (hts : SpelledAs (names.intersperse ",") ts) : Listed IsName ts names := by
  induction names generalizing ts with
  | nil => exact .inl ⟨spelledAs_nil.1 hts, rfl⟩
  | cons name names ih =>
    right
    obtain ⟨hname, hnames⟩ := List.forall_mem_cons.1 h
    rcases names with _ | ⟨other, names⟩
    · obtain ⟨t, rfl, ht, rfl⟩ := spelledAs_singleton.1 hts
      exact .one ⟨t, rfl, ht.kind_of_isIdentifier hname, rfl⟩
    · rw [List.intersperse_cons_cons] at hts
      obtain ⟨t, _, rfl, ht, rfl, hrest⟩ := spelledAs_cons.1 hts
      obtain ⟨comma, us, rfl, -, hcomma, hus⟩ := spelledAs_cons.1 hrest
      have hone : IsName [t] t.literal := ⟨t, rfl, ht.kind_of_isIdentifier hname, rfl⟩
      rcases ih hnames hus with ⟨-, hnil⟩ | hseparated
      · exact absurd hnil (List.cons_ne_nil _ _)
      · exact .more hone hcomma hseparated

/-- A method reads back from its words. -/
theorem Method.WellFormed.derives {m : Method} (h : m.WellFormed) (hts : SpelledAs m.words ts) :
    Derives ts (.method m) := by
  rcases m with ⟨name, parameters, body⟩
  obtain ⟨word, _, rfl, -, hword, hrest⟩ := spelledAs_cons.1 hts
  obtain ⟨t, _, rfl, ht, rfl, hlist⟩ := spelledAs_cons.1 hrest
  obtain ⟨l, _, rfl, -, hl, hnames⟩ := spelledAs_cons.1 hlist
  obtain ⟨us, _, rfl, hus, hbody⟩ := spelledAs_append.1 hnames
  obtain ⟨r, vs, rfl, -, hr, hvs⟩ := spelledAs_cons.1 hbody
  exact .method hword (ht.kind_of_isIdentifier h.name) hl (listed_of_words h.parameters hus) hr
    (derives_body_of_words h.statements (fun s hs => (h.statements s hs).derives) hvs)

lemma derives_methods_of_words {ms : List Method} (h : ∀ m ∈ ms, m.WellFormed)
    (hts : SpelledAs (ms.flatMap Method.words) ts) : Derives ts (.program ⟨[], ms⟩) := by
  induction ms generalizing ts with
  | nil =>
    rw [spelledAs_nil.1 hts]
    exact .noMethods
  | cons m ms ih =>
    obtain ⟨hm, hms⟩ := List.forall_mem_cons.1 h
    rw [List.flatMap_cons] at hts
    obtain ⟨us, vs, rfl, hus, hvs⟩ := spelledAs_append.1 hts
    exact .methods (hm.derives hus) (ih hms hvs)

/-- Tokens with the words of a well-formed program spell it. -/
theorem Program.WellFormed.derives {p : Program} (h : p.WellFormed) (hts : SpelledAs p.words ts) :
    Derives ts (.program p) := by
  rcases p with ⟨bs, ms⟩
  have hfields := h.fields
  have hmethods := h.methods
  simp only at hfields hmethods
  clear h
  induction bs generalizing ts with
  | nil => exact derives_methods_of_words hmethods hts
  | cons b bs ih =>
    obtain ⟨hb, hbs⟩ := List.forall_mem_cons.1 hfields
    rw [words, List.flatMap_cons, List.append_assoc] at hts
    obtain ⟨us, vs, rfl, hus, hvs⟩ := spelledAs_append.1 hts
    exact .fields (hb.derives hus) (ih hvs hbs)

/-- A well-formed program is read back from its text at every limit that its need allows. -/
theorem Program.WellFormed.ofText_render {p : Program} (h : p.WellFormed) {limit : Nat}
    (hneed : p.need ≤ limit) : ofText limit p.render = .ok p := by
  obtain ⟨ts, htokens, hwords⟩ := h.tokenize_render
  have hspelled := wellSpelled_of_tokenize htokens
  have hderives := h.derives ⟨hspelled, hwords⟩
  rw [ofText, htokens]
  exact (ofTokens_eq_ok_iff hspelled).2 ⟨hderives, hneed⟩

end LetDef
