import LetDef.Proofs.Grammar.Agreement
import LetDef.Proofs.Printing.Respelling
import LetDef.Proofs.Printing.Words

/-!
# The tokens behind a tree

What is read keeps every token.  A tree has its words (`Program.words`), and the tokens that it was
read from are these words in the same order (`Derives.tallied`): a name, a mark or an operator is
the word itself, and a literal denotes the value that the word is for.  The one token that leaves no
word is an `ELSE` before an empty block.

So two token lists that are read as one program are tallies of the same words, and differ in no more
than the spelling of values and in such an `ELSE` (`Program.sameTokens_of_ofTokens`).  Nothing is
assumed about the limits, and none of this follows from the round trip: that starts from the words
and not from tokens that may be spelled in other ways.
-/

namespace LetDef

/-! ## Lists of tokens -/

/-- The lists agree token by token, except for how values are spelled and for an `ELSE` right before
an `END`. -/
inductive SameTokens : List Token → List Token → Prop where
  | nil : SameTokens [] []
  | cons {t u : Token} {ts us : List Token} :
      t.Alike u → SameTokens ts us → SameTokens (t :: ts) (u :: us)
  | elseLeft {word t : Token} {ts us : List Token} :
      word.literal = "ELSE" → t.literal = "END" → SameTokens (t :: ts) us →
      SameTokens (word :: t :: ts) us
  | elseRight {word u : Token} {ts us : List Token} :
      word.literal = "ELSE" → u.literal = "END" → SameTokens ts (u :: us) →
      SameTokens ts (word :: u :: us)

/-- The token is the word, or it denotes the value that the word is for. -/
def Token.StandsFor (t : Token) (w : String) : Prop :=
  t.literal = w ∨ ∃ v, Denotes t v ∧ v.word = w

/-- The tokens are the words one by one, but for an `ELSE` right before an `END`. -/
inductive Tally : List Token → List String → Prop where
  | nil : Tally [] []
  | cons {t : Token} {w : String} {ts : List Token} {ws : List String} :
      t.StandsFor w → Tally ts ws → Tally (t :: ts) (w :: ws)
  | emptyElse {word t : Token} {ts : List Token} {ws : List String} :
      word.literal = "ELSE" → t.literal = "END" → Tally ts ws →
      Tally (word :: t :: ts) ("END" :: ws)

/-! ## Tokens that stand for one word -/

section Tokens

variable {t u : Token} {w : String} {v v' : Literal}

lemma Denotes.unique (ht : t.WellSpelled) (h : Denotes t v) (h' : Denotes t v') : v = v' :=
  Grammar.Opening.literal.inj
    ((Grammar.opening_of_denotes ht h).symm.trans (Grammar.opening_of_denotes ht h'))

/-- The word for a value says which value it is. -/
lemma Literal.eq_of_word_eq (h : v.WellFormed) (h' : v'.WellFormed) (hword : v.word = v'.word) :
    v = v' := by
  have ht : Token.WellSpelled ⟨v.kind, v.word, 0⟩ := v.spelling_word h
  exact (denotes_of_word ht h rfl).unique ht (denotes_of_word ht h' hword)

lemma Token.StandsFor.denotes (ht : t.WellSpelled) (h : t.StandsFor v.word) (hv : v.WellFormed) :
    Denotes t v := by
  rcases h with hword | ⟨v', hdenotes, hword⟩
  · exact denotes_of_word ht hv hword
  · rwa [← Literal.eq_of_word_eq (hdenotes.wellFormed ht) hv hword]

theorem Token.StandsFor.alike (ht : t.WellSpelled) (hu : u.WellSpelled) (h : t.StandsFor w)
    (h' : u.StandsFor w) : t.Alike u := by
  rcases h with hword | ⟨v, hdenotes, rfl⟩
  · rcases h' with hword' | ⟨v, hdenotes', rfl⟩
    · exact .of_literal_eq ht hu (hword.trans hword'.symm)
    · have hdenotes := StandsFor.denotes ht (.inl hword) (hdenotes'.wellFormed hu)
      exact .of_denotes ht hu hdenotes hdenotes'
  · exact .of_denotes ht hu hdenotes (h'.denotes hu (hdenotes.wellFormed ht))

end Tokens

/-! ## Tallies -/

section Tallies

variable {ts us : List Token} {ws vs : List String} {t : Token} {w : String}

lemma Tally.word (h : t.literal = w) (hts : Tally ts ws) : Tally (t :: ts) (w :: ws) :=
  .cons (.inl h) hts

lemma Tally.append (hts : Tally ts ws) (hus : Tally us vs) : Tally (ts ++ us) (ws ++ vs) := by
  induction hts with
  | nil => exact hus
  | cons ht _ ih => exact .cons ht ih
  | emptyElse hword ht _ ih => exact .emptyElse hword ht ih

/-- Tallies of the same words have the same tokens. -/
theorem Tally.sameTokens (h : Tally ts ws) (h' : Tally us ws) (hts : ∀ t ∈ ts, t.WellSpelled)
    (hus : ∀ u ∈ us, u.WellSpelled) : SameTokens ts us := by
  induction h generalizing us with
  | nil =>
    cases h' with
    | nil => exact .nil
  | @cons t w ts ws hstands _ ih =>
    rw [List.forall_mem_cons] at hts
    cases h' with
    | cons hstands' hrest =>
      rw [List.forall_mem_cons] at hus
      exact .cons (hstands.alike hts.1 hus.1 hstands') (ih hrest hts.2 hus.2)
    | emptyElse hword hend hrest =>
      simp only [List.forall_mem_cons] at hus
      exact .elseRight hword hend
        (.cons (hstands.alike hts.1 hus.2.1 (.inl hend)) (ih hrest hts.2 hus.2.2))
  | @emptyElse word t ts ws hword hend _ ih =>
    simp only [List.forall_mem_cons] at hts
    refine .elseLeft hword hend ?_
    cases h' with
    | cons hstands' hrest =>
      rw [List.forall_mem_cons] at hus
      exact .cons (Token.StandsFor.alike hts.2.1 hus.1 (.inl hend) hstands')
        (ih hrest hts.2.2 hus.2)
    | emptyElse hword' hend' hrest =>
      simp only [List.forall_mem_cons] at hus
      exact .elseRight hword' hend'
        (.cons (.of_literal_eq hts.2.1 hus.2.1 (hend.trans hend'.symm))
          (ih hrest hts.2.2 hus.2.2))

end Tallies

/-! ## Phrases -/

/-- The tokens are the words of the phrase.  An `ELSE` is told apart by the `END` after it, which is
no part of its own phrase. -/
def Phrase.Tallied (ts : List Token) : Phrase → Prop
  | .expression _ e => Tally ts e.words
  | .expressions es => es ≠ [] ∧ Tally ts (Expr.listWords es)
  | .arguments es => Tally ts (Expr.listWords es)
  | .value v => Tally ts (valueWords v)
  | .field b => Tally ts b.words
  | .statement s => Tally ts s.words
  | .block _ ss => Tally ts (Stmt.blockWords ss)
  | .body ss => Tally ts ("DO" :: (Stmt.blockWords ss ++ ["END"]))
  | .otherwise ss => ∀ t, t.literal = "END" → Tally (ts ++ [t]) (elseWords ss ++ ["END"])
  | .method m => Tally ts m.words
  | .program p => Tally ts p.words

section Parts

variable {ts us : List Token} {t : Token}

lemma listWords_cons {e : Expr} {es : List Expr} (h : es ≠ []) :
    Expr.listWords (e :: es) = e.words ++ "," :: Expr.listWords es := by
  obtain ⟨f, es, rfl⟩ := List.exists_cons_of_ne_nil h
  rfl

lemma tally_typeWords {typeName : Option String} (h : TypePart ts typeName) :
    Tally ts (typeWords typeName) := by
  cases h with
  | none => exact .nil
  | some hcolon _ => exact .word hcolon (.word rfl .nil)

lemma tally_names {names : List String} (h : Listed IsName ts names) :
    Tally ts (names.intersperse ",") := by
  rcases h with ⟨rfl, rfl⟩ | h
  · exact .nil
  induction h with
  | one hname =>
    obtain ⟨t, rfl, -, hliteral⟩ := hname
    exact .word hliteral .nil
  | @more _ _ _ _ names hname hcomma hrest ih =>
    obtain ⟨t, rfl, -, hliteral⟩ := hname
    have hne : names ≠ [] := by cases hrest <;> exact List.cons_ne_nil _ _
    obtain ⟨other, names, rfl⟩ := List.exists_cons_of_ne_nil hne
    exact .word hliteral (.word hcomma ih)

/-- A block without statements has no tokens, so an `ELSE` before it stands right before the
`END`. -/
lemma tally_else {word : Token} {ss : List Stmt} (hword : word.literal = "ELSE")
    (hblock : Derives ts (.block blockEnders ss)) (hts : Tally ts (Stmt.blockWords ss))
    (hend : t.literal = "END") : Tally (word :: ts ++ [t]) (elseWords ss ++ ["END"]) := by
  rcases ss with _ | ⟨s, ss⟩
  · cases hblock with
    | noStatements => exact .emptyElse hword hend .nil
  · exact .word hword (hts.append (.word hend .nil))

end Parts

/-- The tokens of a phrase are its words, in order and with none left out but an `ELSE` without
statements. -/
theorem Derives.tallied {ts : List Token} {phrase : Phrase} (h : Derives ts phrase) :
    phrase.Tallied ts := by
  induction h with
  | literal hv => exact .cons (.inr ⟨_, hv, rfl⟩) .nil
  | group hl _ hr ih => exact .word hl (ih.append (.word hr .nil))
  | var _ => exact .word rfl .nil
  | call _ hl _ hr ih => exact .word rfl (.word hl (ih.append (.word hr .nil)))
  | ofPrimary _ ih => exact ih
  | member _ hdot _ ih => exact ih.append (.word hdot (.word rfl .nil))
  | invoke _ hdot _ hl _ hr ih ihArguments =>
    exact ih.append (.word hdot (.word rfl (.word hl (ihArguments.append (.word hr .nil)))))
  | ofOperand _ ih => exact ih
  | binary _ _ _ ih ihRight => exact ih.append (.word rfl ihRight)
  | oneExpression _ ih => exact ⟨List.cons_ne_nil _ _, ih⟩
  | moreExpressions _ hcomma _ ih ihRest =>
    refine ⟨List.cons_ne_nil _ _, ?_⟩
    rw [listWords_cons ihRest.1]
    exact ih.append (.word hcomma ihRest.2)
  | noArguments => exact .nil
  | arguments _ ih => exact ih.2
  | noValue => exact .nil
  | value heq _ ih => exact .word heq ih
  | field hword _ htype _ hsemicolon ih =>
    exact .word hword
      (.word rfl ((tally_typeWords htype).append (ih.append (.word hsemicolon .nil))))
  | declaration _ ih => exact ih
  | conditional hword _ hdo _ _ hend ih ihThen ihElse =>
    exact .word hword (ih.append (.word hdo (ihThen.append (ihElse _ hend))))
  | forEach hword _ hin _ _ ih ihBody =>
    exact .word hword (.word rfl (.word hin (ih.append ihBody)))
  | whileLoop hword _ _ ih ihBody => exact .word hword (ih.append ihBody)
  | noResult hword hsemicolon => exact .word hword (.word hsemicolon .nil)
  | result hword _ hsemicolon ih => exact .word hword (ih.append (.word hsemicolon .nil))
  | expression _ _ hsemicolon ih => exact ih.append (.word hsemicolon .nil)
  | assignment _ _ heq _ hsemicolon ih ihValue =>
    exact ih.append (.word heq (ihValue.append (.word hsemicolon .nil)))
  | noStatements => exact .nil
  | statements _ _ _ ih ihRest => exact ih.append ihRest
  | body hdo _ hend ih => exact .word hdo (ih.append (.word hend .nil))
  | noElse => exact fun t hend => .word hend .nil
  | otherwise hword hblock ih => exact fun t hend => tally_else hword hblock ih hend
  | method hword _ hl hnames hr _ ih =>
    exact .word hword (.word rfl (.word hl ((tally_names hnames).append (.word hr ih))))
  | noMethods => exact .nil
  | methods _ _ ih ihRest => exact ih.append ihRest
  | fields _ _ ih ihRest =>
    simp only [Phrase.Tallied, Program.words, List.flatMap_cons, List.append_assoc]
    exact ih.append ihRest

/-! ## Programs -/

/-- Let two texts be cut into tokens that are read as the same program, at whatever limits.  Then
the tokens are the same but for how values are spelled and for `ELSE`s without statements. -/
theorem Program.sameTokens_of_ofTokens {text text' : String} {ts us : List Token}
    {limit limit' : Nat} {p : Program} (htext : tokenize text = .ok ts)
    (htext' : tokenize text' = .ok us) (hread : ofTokens limit ts = .ok p)
    (hread' : ofTokens limit' us = .ok p) : SameTokens ts us := by
  have hts := wellSpelled_of_tokenize htext
  have hus := wellSpelled_of_tokenize htext'
  have htally : Tally ts p.words := ((ofTokens_eq_ok_iff hts).1 hread).1.tallied
  have htally' : Tally us p.words := ((ofTokens_eq_ok_iff hus).1 hread').1.tallied
  exact htally.sameTokens htally' hts hus

/-- An `ELSE` without statements, and a number and a character spelled in two ways each. -/
theorem Program.sameTokens_of_ofTokens_respelled :
    ∃ ts us p,
      tokenize "DEF f() DO IF '\\\"' DO ELSE END RETURN +007; END" = .ok ts ∧
      tokenize "DEF f() DO IF '\"' DO END RETURN 7; END" = .ok us ∧
      ofTokens 2 ts = .ok p ∧ ofTokens 64 us = .ok p ∧ SameTokens ts us := by
  have hleft : ∃ ts, tokenize "DEF f() DO IF '\\\"' DO ELSE END RETURN +007; END" = .ok ts ∧
      ofTokens 2 ts = .ok ⟨[], [⟨"f", [], [.conditional (.literal (.character '"')) [] [],
        .result (some (.literal (.integer 7)))]⟩]⟩ := by
    refine ⟨[⟨.identifier, "DEF", 0⟩, ⟨.identifier, "f", 4⟩, ⟨.operator, "(", 5⟩,
      ⟨.operator, ")", 6⟩, ⟨.identifier, "DO", 8⟩, ⟨.identifier, "IF", 11⟩,
      ⟨.character, "'\\\"'", 14⟩, ⟨.identifier, "DO", 19⟩, ⟨.identifier, "ELSE", 22⟩,
      ⟨.identifier, "END", 27⟩, ⟨.identifier, "RETURN", 31⟩, ⟨.integer, "+007", 38⟩,
      ⟨.operator, ";", 42⟩, ⟨.identifier, "END", 44⟩], ?_, ?_⟩ <;> cbv
  have hright : ∃ us, tokenize "DEF f() DO IF '\"' DO END RETURN 7; END" = .ok us ∧
      ofTokens 64 us = .ok ⟨[], [⟨"f", [], [.conditional (.literal (.character '"')) [] [],
        .result (some (.literal (.integer 7)))]⟩]⟩ := by
    refine ⟨[⟨.identifier, "DEF", 0⟩, ⟨.identifier, "f", 4⟩, ⟨.operator, "(", 5⟩,
      ⟨.operator, ")", 6⟩, ⟨.identifier, "DO", 8⟩, ⟨.identifier, "IF", 11⟩,
      ⟨.character, "'\"'", 14⟩, ⟨.identifier, "DO", 18⟩, ⟨.identifier, "END", 21⟩,
      ⟨.identifier, "RETURN", 25⟩, ⟨.integer, "7", 32⟩, ⟨.operator, ";", 33⟩,
      ⟨.identifier, "END", 35⟩], ?_, ?_⟩ <;> cbv
  obtain ⟨ts, htext, hread⟩ := hleft
  obtain ⟨us, htext', hread'⟩ := hright
  exact ⟨ts, us, _, htext, htext', hread, hread',
    sameTokens_of_ofTokens htext htext' hread hread'⟩

end LetDef
