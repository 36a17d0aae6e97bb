import LetDef.Proofs.Printing.RoundTrip

/-!
# What is read is well-formed

Tokens that are words of their kinds spell well-formed trees only.  Together with the round trip
this says that the well-formed programs are exactly those that some text is read as.

For names, values and operators it is enough to look at each production by itself.  The first word
of a statement needs more: whether a tree may stand as a statement depends on the word that
`Program.render` would write first, and the grammar speaks of the token that stands first.  The two
agree where it matters (`Expr.StartsAs`): an expression that starts with a name starts with a token
of that name, and any other expression starts with no word that decides on a form.
-/

namespace LetDef

variable {ts us : List Token} {t : Token} {e f : Expr}

/-- The text of a token that is a name is one. -/
lemma Token.WellSpelled.isIdentifier (ht : t.WellSpelled) (hkind : t.kind = .identifier) :
    IsIdentifier t.literal := by
  unfold Token.WellSpelled at ht
  rwa [hkind] at ht

/-! ## Ranks of expressions -/

/-- An operator is an operator of one level only. -/
lemma level_unique {level level' : Level} {op : String} (h : op ∈ level.operators)
    (h' : op ∈ level'.operators) : level = level' := by
  revert op
  cases level <;> cases level' <;> decide

/-- What fits a rank fits every looser one. -/
lemma Expr.FitsRank.mono {rank rank' : Rank} (h : e.FitsRank rank)
    (hle : rank'.tightness ≤ rank.tightness) : e.FitsRank rank' :=
  fun level hlevel => Nat.le_trans hle (h level hlevel)

lemma Expr.WellFormed.not_isBinary (h : e.WellFormed) (hfits : e.FitsRank .secondary) :
    ¬ e.IsBinary := by
  intro hbinary
  cases h with
  | @binary level op left right hop _ _ _ _ =>
    have hle := hfits level ⟨op, left, right, rfl, hop⟩
    cases level <;> exact absurd hle (by decide)
  | _ => exact hbinary

/-- Operators of a level make expressions of this level. -/
lemma fitsRank_binary {level : Level} {op : String} (hop : op ∈ level.operators) :
    (Expr.binary op e f).FitsRank (.level level) := by
  rintro level' ⟨op', left, right, heq, hop'⟩
  obtain ⟨rfl, -, -⟩ := Expr.binary.inj heq
  rw [level_unique hop hop']
  exact Nat.le_refl _

/-! ## First words -/

/-- The words that a statement may not start with if it is to be read as an expression. -/
def decidingWords : List String := statementWords ++ thenEnders

/-- Where the expression starts with a word that decides on a form, the tokens do so too. -/
def Expr.StartsAs (ts : List Token) (e : Expr) : Prop :=
  ∀ w ∈ e.words.head?, w ∈ decidingWords → ∃ t ∈ ts.head?, t.literal = w

/-- An expression that is continued starts as it did before. -/
lemma Expr.StartsAs.append {ws : List String} (h : e.StartsAs ts) (he : e.WellFormed)
    (hts : ts ≠ []) (hwords : f.words = e.words ++ ws) (us : List Token) :
    f.StartsAs (ts ++ us) := by
  obtain ⟨v, vs, hcons⟩ := List.exists_cons_of_ne_nil he.words_ne_nil
  obtain ⟨t, ts, rfl⟩ := List.exists_cons_of_ne_nil hts
  intro w hw hdeciding
  rw [hwords, hcons] at hw
  apply h w _ hdeciding
  rw [hcons]
  exact hw

lemma word_not_mem_decidingWords {v : Literal} (h : v.WellFormed) : v.word ∉ decidingWords := by
  intro hmem
  have hall : ∀ w ∈ decidingWords, w ∉ constantWords ∧ w.toList.head?.any isNameStart ∧
      w.toList.all isNamePart := by decide
  obtain ⟨hconstant, hstart, hpart⟩ := hall _ hmem
  have hspelling : Spelling .identifier v.word.toList := by
    rcases hw : v.word.toList with _ | ⟨c, cs⟩
    · rw [hw] at hstart
      exact absurd hstart (by decide)
    · rw [hw] at hstart hpart
      exact spelling_of_all c cs hstart ((Bool.and_eq_true _ _).mp hpart).2
  have hkind : v.kind = .identifier := Lexeme.kind_unique (v.spelling_word h) hspelling
  cases v with
  | nil => exact hconstant (by decide)
  | bool b => cases b <;> exact hconstant (by decide)
  | _ => exact absurd hkind (by simp [Literal.kind])

/-- The first word of a statement that is read has been found to be none of those that decide
otherwise. -/
lemma startsStatement_of_startsAs {enders : List String} (h : e.StartsAs ts)
    (henders : enders ⊆ thenEnders) (hform : StartsOutside statementWords ts)
    (hblock : StartsOutside enders ts) : e.StartsStatement enders := by
  intro w hw
  constructor
  · intro hmem
    obtain ⟨t, ht, rfl⟩ := h w hw (List.mem_append_left _ hmem)
    exact hform t ht hmem
  · intro hmem
    obtain ⟨t, ht, rfl⟩ := h w hw (List.mem_append_right _ (henders hmem))
    exact hblock t ht hmem

/-! ## Expressions -/

/-- The expression is well-formed, may stand at the rank, and starts as the tokens do. -/
structure Expr.GoodAt (rank : Rank) (ts : List Token) (e : Expr) : Prop where
  wellFormed : e.WellFormed
  fits : e.FitsRank rank
  starts : e.StartsAs ts

namespace Expr.GoodAt

variable {rank rank' : Rank}

/-- A name by itself starts with itself. -/
lemma of_name (he : e.WellFormed) (hbinary : ¬ e.IsBinary)
    (hfirst : e.words.head? = some t.literal) : e.GoodAt rank (t :: ts) := by
  refine ⟨he, fitsRank_of_not_isBinary hbinary, fun w hw _ => ?_⟩
  rw [hfirst] at hw
  exact ⟨t, rfl, Option.some.inj hw⟩

lemma of_other {w : String} (he : e.WellFormed) (hbinary : ¬ e.IsBinary)
    (hfirst : e.words.head? = some w) (hw : w ∉ decidingWords) : e.GoodAt rank ts := by
  refine ⟨he, fitsRank_of_not_isBinary hbinary, fun v hv hdeciding => ?_⟩
  rw [hfirst] at hv
  obtain rfl := Option.some.inj hv
  exact absurd hdeciding hw

/-- A good expression of one rank is a good one of every looser rank. -/
theorem loosen (h : e.GoodAt rank ts) (hle : rank'.tightness ≤ rank.tightness) :
    e.GoodAt rank' ts :=
  ⟨h.wellFormed, h.fits.mono hle, h.starts⟩

/-- A member of a good expression is a good expression. -/
lemma member (h : e.GoodAt .secondary ts) (hts : ts ≠ []) (ht : t.WellSpelled)
    (hkind : t.kind = .identifier) (us : List Token) :
    (Expr.member e t.literal).GoodAt .secondary (ts ++ us) where
  wellFormed := .member h.wellFormed (h.wellFormed.not_isBinary h.fits) (ht.isIdentifier hkind)
  fits := fitsRank_of_not_isBinary id
  starts := h.starts.append h.wellFormed hts rfl us

/-- A call at a good expression is a good expression. -/
lemma invoke {es : List Expr} (h : e.GoodAt .secondary ts) (hts : ts ≠ []) (ht : t.WellSpelled)
    (hkind : t.kind = .identifier) (hes : ∀ e ∈ es, e.WellFormed) (us : List Token) :
    (Expr.invoke e t.literal es).GoodAt .secondary (ts ++ us) where
  wellFormed :=
    .invoke h.wellFormed (h.wellFormed.not_isBinary h.fits) (ht.isIdentifier hkind) hes
  fits := fitsRank_of_not_isBinary id
  starts := h.starts.append h.wellFormed hts rfl us

/-- Operators join good expressions to good ones: the left operand has the rank of the whole, the
right one is tighter. -/
lemma binary {level : Level} {op : String} (h : e.GoodAt (.level level) ts) (hts : ts ≠ [])
    (hop : op ∈ level.operators) (hf : f.GoodAt level.operand us) (rest : List Token) :
    (Expr.binary op e f).GoodAt (.level level) (ts ++ rest) where
  wellFormed := by
    refine .binary hop h.wellFormed hf.wellFormed h.fits fun l hl => ?_
    have hle := hf.fits l hl
    rwa [tightness_operand] at hle
  fits := fitsRank_binary hop
  starts := h.starts.append h.wellFormed hts rfl rest

end Expr.GoodAt

/-! ## All phrases -/

/-- The tree of the phrase is well-formed.  Of expressions it is also said where they may stand. -/
def Phrase.HasGoodTree (ts : List Token) : Phrase → Prop
  | .expression rank e => e.GoodAt rank ts
  | .expressions es => ∀ e ∈ es, e.WellFormed
  | .arguments es => ∀ e ∈ es, e.WellFormed
  | .value v => ∀ e ∈ v, e.WellFormed
  | .field b => b.WellFormed
  | .statement s => ∀ enders, enders ⊆ thenEnders → StartsOutside enders ts → s.WellFormed enders
  | .block enders ss => enders ⊆ thenEnders → ∀ s ∈ ss, s.WellFormed enders
  | .body ss => ∀ s ∈ ss, s.WellFormed blockEnders
  | .otherwise ss => ∀ s ∈ ss, s.WellFormed blockEnders
  | .method m => m.WellFormed
  | .program p => p.WellFormed

lemma blockEnders_subset : blockEnders ⊆ thenEnders := by
  decide

/-- A type that is read is a name. -/
lemma typeName_isIdentifier {typeName : Option String} (h : TypePart ts typeName)
    (hts : ∀ t ∈ ts, t.WellSpelled) : ∀ name ∈ typeName, IsIdentifier name := by
  cases h with
  | none => simp
  | some _ hkind =>
    intro name hname
    obtain rfl := Option.some.inj hname
    exact (hts _ (by simp)).isIdentifier hkind

/-- Parameters that are read are names. -/
lemma names_isIdentifier {names : List String} (h : Listed IsName ts names)
    (hts : ∀ t ∈ ts, t.WellSpelled) : ∀ name ∈ names, IsIdentifier name := by
  rcases h with ⟨rfl, rfl⟩ | h
  · exact List.forall_mem_nil _
  induction h with
  | one hname =>
    obtain ⟨t, rfl, hkind, rfl⟩ := hname
    rw [List.forall_mem_singleton]
    exact (hts t List.mem_cons_self).isIdentifier hkind
  | more hname _ _ ih =>
    obtain ⟨t, rfl, hkind, rfl⟩ := hname
    simp only [List.forall_mem_append, List.forall_mem_cons] at hts
    exact List.forall_mem_cons.2 ⟨hts.1.1.isIdentifier hkind, ih hts.2.2⟩

/-- What derives from tokens of a text is a tree that can be written, case by case along the
derivation. -/
theorem Derives.hasGoodTree {phrase : Phrase} (h : Derives ts phrase)
    (hts : ∀ t ∈ ts, t.WellSpelled) : phrase.HasGoodTree ts := by
  induction h with
  | literal hv =>
    have hgood := hv.wellFormed (hts _ List.mem_cons_self)
    exact .of_other (.literal hgood) id rfl (word_not_mem_decidingWords hgood)
  | group _ _ _ ih =>
    simp only [List.forall_mem_cons, List.forall_mem_append] at hts
    exact .of_other (.group (ih hts.2.1).wellFormed) id rfl (by decide)
  | var ht =>
    have hname := (hts _ List.mem_cons_self).isIdentifier ht.1
    exact .of_name (.var hname ht.2) id rfl
  | call ht _ _ _ ih =>
    simp only [List.forall_mem_cons, List.forall_mem_append] at hts
    exact .of_name (.call (hts.1.isIdentifier ht.1) ht.2 (ih hts.2.2.1)) id rfl
  | ofPrimary _ ih => exact (ih hts).loosen (by decide)
  | member hd _ hkind ih =>
    simp only [List.forall_mem_cons, List.forall_mem_append] at hts
    exact (ih hts.1).member hd.expression_ne_nil hts.2.2.1 hkind _
  | invoke hd _ hkind _ _ _ ih ihArguments =>
    simp only [List.forall_mem_cons, List.forall_mem_append] at hts
    obtain ⟨hreceiver, -, ht, -, harguments, -⟩ := hts
    exact (ih hreceiver).invoke hd.expression_ne_nil ht hkind (ihArguments harguments) _
  | @ofOperand level _ _ _ ih =>
    apply (ih hts).loosen
    rw [tightness_operand]
    exact Nat.le_succ level.tightness
  | binary hd hop _ ih ihRight =>
    simp only [List.forall_mem_cons, List.forall_mem_append] at hts
    exact (ih hts.1).binary hd.expression_ne_nil hop (ihRight hts.2.2) _
  | oneExpression _ ih => exact List.forall_mem_singleton.2 (ih hts).wellFormed
  | moreExpressions _ _ _ ih ihRest =>
    simp only [List.forall_mem_cons, List.forall_mem_append] at hts
    exact List.forall_mem_cons.2 ⟨(ih hts.1).wellFormed, ihRest hts.2.2⟩
  | noArguments => exact List.forall_mem_nil _
  | arguments _ ih => exact ih hts
  | noValue => simp [Phrase.HasGoodTree]
  | value _ _ ih =>
    intro e he
    obtain rfl := Option.some.inj he
    exact (ih (List.forall_mem_cons.1 hts).2).wellFormed
  | field _ hkind htype _ _ ih =>
    simp only [List.forall_mem_cons, List.forall_mem_append] at hts
    obtain ⟨-, ht, htypePart, hvalue, -⟩ := hts
    exact ⟨ht.isIdentifier hkind, typeName_isIdentifier htype htypePart, ih hvalue⟩
  | declaration _ ih => exact fun _ _ _ => .declaration (ih hts)
  | conditional _ _ _ _ _ _ ih ihThen ihElse =>
    simp only [List.forall_mem_cons, List.forall_mem_append] at hts
    obtain ⟨-, hcondition, -, hthen, helse, -⟩ := hts
    exact fun _ _ _ => .conditional (ih hcondition).wellFormed
      (ihThen hthen (List.Subset.refl _)) (ihElse helse)
  | forEach _ hkind _ _ _ ih ihBody =>
    simp only [List.forall_mem_cons, List.forall_mem_append] at hts
    obtain ⟨-, ht, -, hvalue, hbody⟩ := hts
    exact fun _ _ _ => .forEach (ht.isIdentifier hkind) (ih hvalue).wellFormed (ihBody hbody)
  | whileLoop _ _ _ ih ihBody =>
    simp only [List.forall_mem_cons, List.forall_mem_append] at hts
    exact fun _ _ _ => .whileLoop (ih hts.2.1).wellFormed (ihBody hts.2.2)
  | noResult _ _ => exact fun _ _ _ => .result (by simp)
  | result _ _ _ ih =>
    simp only [List.forall_mem_cons, List.forall_mem_append] at hts
    refine fun _ _ _ => .result fun e he => ?_
    obtain rfl := Option.some.inj he
    exact (ih hts.2.1).wellFormed
  | expression hd hform _ ih =>
    simp only [List.forall_mem_append] at hts
    intro enders henders hblock
    rw [startsOutside_append hd.expression_ne_nil] at hblock
    exact .expression (ih hts.1).wellFormed
      (startsStatement_of_startsAs (ih hts.1).starts henders hform hblock)
  | assignment hd hform _ _ _ ih ihValue =>
    simp only [List.forall_mem_cons, List.forall_mem_append] at hts
    intro enders henders hblock
    rw [startsOutside_append hd.expression_ne_nil] at hblock
    exact .assignment (ih hts.1).wellFormed
      (startsStatement_of_startsAs (ih hts.1).starts henders hform hblock)
      (ihValue hts.2.2.1).wellFormed
  | noStatements => exact fun _ => List.forall_mem_nil _
  | statements _ hstart _ ih ihRest =>
    simp only [List.forall_mem_append] at hts
    intro henders
    exact List.forall_mem_cons.2 ⟨ih hts.1 _ henders hstart, ihRest hts.2 henders⟩
  | body _ _ _ ih =>
    simp only [List.forall_mem_cons, List.forall_mem_append] at hts
    exact ih hts.2.1 blockEnders_subset
  | noElse => exact List.forall_mem_nil _
  | otherwise _ _ ih => exact ih (List.forall_mem_cons.1 hts).2 blockEnders_subset
  | method _ hkind _ hnames _ _ ih =>
    simp only [List.forall_mem_cons, List.forall_mem_append] at hts
    obtain ⟨-, ht, -, hparameters, -, hbody⟩ := hts
    exact ⟨ht.isIdentifier hkind, names_isIdentifier hnames hparameters, ih hbody⟩
  | noMethods => exact ⟨List.forall_mem_nil _, List.forall_mem_nil _⟩
  | methods _ _ ih ihRest =>
    simp only [List.forall_mem_append] at hts
    exact ⟨List.forall_mem_nil _, List.forall_mem_cons.2 ⟨ih hts.1, (ihRest hts.2).methods⟩⟩
  | fields _ _ ih ihRest =>
    simp only [List.forall_mem_append] at hts
    exact ⟨List.forall_mem_cons.2 ⟨ih hts.1, (ihRest hts.2).fields⟩, (ihRest hts.2).methods⟩

/-! ## Programs -/

/-- What is read from a text is well-formed. -/
theorem Program.wellFormed_of_ofText {limit : Nat} {text : String} {p : Program}
    (h : ofText limit text = .ok p) : p.WellFormed := by
  rw [ofText] at h
  cases htokens : tokenize text with
  | error fault =>
    rw [htokens] at h
    exact absurd h (by simp [bind, Except.bind])
  | ok ts =>
    rw [htokens] at h
    have hts := wellSpelled_of_tokenize htokens
    exact ((ofTokens_eq_ok_iff hts).1 h).1.hasGoodTree hts

/-- A well-formed program is written down as a text that is cut into its words and read back as the
same program, at every limit that its need allows; and what a text is read as is well-formed. -/
theorem Program.wellFormed_roundTrip :
    (∀ p : Program, p.WellFormed →
      (∃ ts, tokenize p.render = .ok ts ∧ ts.map Token.literal = p.words) ∧
      ∀ limit, p.need ≤ limit → ofText limit p.render = .ok p) ∧
    ∀ limit text p, ofText limit text = .ok p → p.WellFormed := by
  refine ⟨fun p hp => ⟨hp.tokenize_render, fun limit hneed => hp.ofText_render hneed⟩, ?_⟩
  intro limit text p h
  exact wellFormed_of_ofText h

/-- A minus between two operands and one that belongs to a number. -/
theorem Program.wellFormed_roundTrip_minus :
    ∃ p : Program, p.WellFormed ∧ p.render = "LET x = a - -0.05 ;" ∧
      ofText 1 p.render = .ok p := by
  have hx : IsIdentifier "x" := spelling_of_all 'x' [] rfl rfl
  have ha : (Expr.var "a").WellFormed := .var (spelling_of_all 'a' [] rfl rfl) (by decide)
  have hnumber : (Expr.literal (.decimal ⟨-5, 2⟩)).WellFormed := .literal ⟨by decide, by decide⟩
  have hdifference : (Expr.binary "-" (.var "a") (.literal (.decimal ⟨-5, 2⟩))).WellFormed :=
    @Expr.WellFormed.binary .additive _ _ _ (by decide) ha hnumber
      (fun l hl => absurd hl (not_hasLevel_of_not_isBinary id l))
      (fun l hl => absurd hl (not_hasLevel_of_not_isBinary id l))
  have hp : (Program.mk
      [⟨"x", none, some (.binary "-" (.var "a") (.literal (.decimal ⟨-5, 2⟩)))⟩] []).WellFormed :=
    ⟨List.forall_mem_singleton.2 ⟨hx, by simp, by simpa using hdifference⟩, List.forall_mem_nil _⟩
  exact ⟨_, hp, by cbv, (wellFormed_roundTrip.1 _ hp).2 1 (by decide)⟩

end LetDef
