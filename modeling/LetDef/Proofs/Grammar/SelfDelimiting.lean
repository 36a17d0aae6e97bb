import LetDef.Proofs.Grammar.EarliestFault
import LetDef.Proofs.Grammar.Layout
import LetDef.Proofs.Grammar.Threshold
import LetDef.Proofs.Lexical.Lines

/-!
# Fields, methods and statements end by themselves

Where an expression ends depends on the token after it.  A field, a method or a statement ends with
a token of its own, a semicolon or an `END`, and what comes after that token has no influence
(`Rule.SelfDelimiting`).  Viability says this of the rule under the next larger limit.  What has
been read fits into the limit itself, so that it is read there as well.

It follows that two programs, one after the other, are one program again, with a blank between them
to keep their tokens apart.  There is one exception: fields come before methods, so after a method
the fields of the second program are refused at its first token.
-/

namespace LetDef

open Rule Follow Grammar

/-! ## Rules that need not look ahead -/

namespace Rule

variable {α β : Type} {r s : Rule α}

/-- Where the rule succeeds, it reads the same tokens with the same answer whatever follows them. -/
def SelfDelimiting (r : Rule α) : Prop :=
  r.Yields fun ts a => ∀ rest, r.Reads ts a rest

lemma SelfDelimiting.map (h : r.SelfDelimiting) (f : α → β) : (f <$> r).SelfDelimiting := by
  rw [map_eq_bind]
  exact Yields.map h fun ts a hread rest => (hread rest).map

/-- A rule is viable for another one, which reads what fits as the rule itself does. -/
lemma SelfDelimiting.of_viable {P : α → Prop} (hyields : r.Yields fun ts a => ts ≠ [] ∧ P a)
    (hviable : ViableItem anything (fun _ => true) r s) (hfits : Fits P s r) :
    r.SelfDelimiting := by
  intro input a output hr
  obtain ⟨ts, hahead, hend, hne, hp⟩ := hyields input a output hr
  obtain ⟨t, tail, stop, rfl⟩ : ∃ t tail stop, input = ⟨t :: tail, stop⟩ := by
    obtain ⟨t, ts, rfl⟩ := List.exists_cons_of_ne_nil hne
    exact ⟨t, ts ++ output.ahead, input.endOffset, by rw [← List.cons_append, ← hahead]⟩
  -- The viable rule reads with a larger limit; what is read fits into the smaller one as well.
  have hrun := hviable t tail stop rfl
  rw [hr] at hrun
  cases hrun with
  | @ok us _ _ hahead' _ hread =>
    exact ⟨us, hahead', hend, fun rest stop =>
      hfits _ _ _ (hread rest (.inr trivial) stop) hp⟩

end Rule

namespace Grammar

lemma selfDelimiting_letBinding (limit : Nat) :
    (letBinding (expression limit)).SelfDelimiting := by
  have hviable : Viable anything (is (.mark "LET")) (letBinding (expression limit))
      (letBinding (expression (limit + 1))) := (viableNested_expression limit).letBinding
  exact .of_viable
    ((letBinding_yields (expression_yields limit)).mono fun _ _ h => ⟨h.1.field_ne_nil, h.2⟩)
    (hviable.viableItem (fun hall => not_is_none _ (hall none trivial)) _)
    (fits_letBinding (fits_expression (limit + 1) limit))

lemma selfDelimiting_method (limit : Nat) : (method (innerAt limit)).SelfDelimiting := by
  have hviable : Viable anything (is (.mark "DEF")) (method (innerAt limit))
      (method (innerAt (limit + 1))) := (viableInner_innerAt limit).method
  exact .of_viable ((method_yields limit).mono fun _ _ h => ⟨h.1.method_ne_nil, h.2⟩)
    (hviable.viableItem (fun hall => not_is_none _ (hall none trivial)) _)
    (fitsInto_innerAt (limit + 1) limit).method

lemma selfDelimiting_statement (limit : Nat) : (statement (innerAt limit)).SelfDelimiting :=
  .of_viable
    ((innerAt_sound limit).statement_yields.mono fun _ _ h => ⟨h.1.statement_ne_nil, h.2⟩)
    ((viableInner_innerAt limit).statement _) (fitsInto_innerAt (limit + 1) limit).statement

end Grammar

/-- The constructs that end with a token of their own. -/
def Construct.closed : List Construct := [.field, .method, .statement]

lemma Construct.selfDelimiting {construct : Construct} (h : construct ∈ closed) (limit : Nat) :
    (construct.rule limit).SelfDelimiting := by
  simp only [closed, List.mem_cons, List.not_mem_nil, or_false] at h
  rcases h with rfl | rfl | rfl
  · exact (selfDelimiting_letBinding limit).map Node.field
  · exact (selfDelimiting_method limit).map Node.method
  · exact (selfDelimiting_statement limit).map Node.statement

/-! ## Programs one after the other -/

/-- The fields of one program and then those of another, and likewise the methods. -/
def Program.append (p q : Program) : Program := ⟨p.fields ++ q.fields, p.methods ++ q.methods⟩

section Programs

variable {limit : Nat} {ts us : List Token} {p q : Program}

/-- The parts of a program with their needs. -/
lemma parts_of_derives (h : Derives ts (.program p)) (hneed : p.need ≤ limit) :
    ∃ us vs, ts = us ++ vs ∧
      Sequence (fun ts b => Derives ts (.field b) ∧ b.need ≤ limit) us p.fields ∧
      Sequence (fun ts m => Derives ts (.method m) ∧ m.need ≤ limit) vs p.methods := by
  obtain ⟨us, vs, hts, hbs, hms⟩ := program_parts h
  obtain ⟨hfields, hmethods⟩ := Program.need_le_iff.1 hneed
  exact ⟨us, vs, hts,
    (hbs.and_all (Q := fun _ => True) (fun _ _ => trivial) hfields).mono fun _ _ h => ⟨h.1, h.2.2⟩,
    (hms.and_all (Q := fun _ => True) (fun _ _ => trivial) hmethods).mono fun _ _ h => ⟨h.1, h.2.2⟩⟩

/-- The tokens of two programs are those of both together, unless methods of the first one come
before fields of the second one. -/
lemma derives_append (hp : Derives ts (.program p)) (hneedp : p.need ≤ limit)
    (hq : Derives us (.program q)) (hneedq : q.need ≤ limit)
    (horder : p.methods = [] ∨ q.fields = []) :
    Derives (ts ++ us) (.program (p.append q)) ∧ (p.append q).need ≤ limit := by
  obtain ⟨ts, ts', rfl, hbs, hms⟩ := parts_of_derives hp hneedp
  obtain ⟨us, us', rfl, hbs', hms'⟩ := parts_of_derives hq hneedq
  -- The methods of the first program and the fields of the second one can change places, since
  -- there are none of one or the other.
  have hmiddle : (ts ++ ts') ++ (us ++ us') = (ts ++ us) ++ (ts' ++ us') := by
    rcases horder with hnil | hnil
    · rw [hnil] at hms
      simp [hms.eq_nil]
    · rw [hnil] at hbs'
      simp [hbs'.eq_nil]
  rw [hmiddle]
  exact derives_program (hbs.append hbs') (hms.append hms')

lemma exists_let_of_fields (h : Derives ts (.program p)) (hfields : p.fields ≠ []) :
    ∃ t tail, ts = t :: tail ∧ t.literal = "LET" := by
  cases h with
  | noMethods | methods _ _ => exact absurd rfl hfields
  | fields hb _ =>
    obtain ⟨t, tail, rfl, ht⟩ := hb.field_starts
    exact ⟨t, _, rfl, ht⟩

lemma sameWords_shift (ts : List Token) (n : Nat) : SameWords ts (ts.map (Token.shift n)) where
  length_eq := List.length_map _
  word_eq ht hu := by
    rw [List.getElem?_map, ht] at hu
    obtain rfl := Option.some.inj hu
    exact ⟨rfl, rfl⟩

/-- Where a program stands in a text does not matter. -/
lemma ofTokens_shift (h : Program.ofTokens limit ts = .ok p) (n : Nat) :
    Program.ofTokens limit (ts.map (Token.shift n)) = .ok p := by
  have hsame := (sameWords_shift ts n).sameOutcome limit
  rw [h] at hsame
  generalize Program.ofTokens limit (ts.map (Token.shift n)) = res at hsame
  cases hsame
  rfl

lemma ofTokens_append (hts : ∀ t ∈ ts ++ us, t.WellSpelled) (hp : Program.ofTokens limit ts = .ok p)
    (hq : Program.ofTokens limit us = .ok q) (horder : p.methods = [] ∨ q.fields = []) :
    Program.ofTokens limit (ts ++ us) = .ok (p.append q) := by
  obtain ⟨hspelled, hspelled'⟩ := List.forall_mem_append.1 hts
  obtain ⟨hderives, hneed⟩ := (Program.ofTokens_eq_ok_iff hspelled).1 hp
  obtain ⟨hderives', hneed'⟩ := (Program.ofTokens_eq_ok_iff hspelled').1 hq
  exact (Program.ofTokens_eq_ok_iff hts).2 (derives_append hderives hneed hderives' hneed' horder)

/-- After a method, a field is no method and no end. -/
lemma ofTokens_append_error {t : Token} (hts : ∀ t ∈ ts, t.WellSpelled)
    (hp : Program.ofTokens limit ts = .ok p) (hmethods : p.methods ≠ []) (ht : t.literal = "LET")
    (us : List Token) :
    Program.ofTokens limit (ts ++ t :: us) = .error ⟨.expected "`DEF`", t.offset⟩ := by
  obtain ⟨hderives, hneed⟩ := (Program.ofTokens_eq_ok_iff hts).1 hp
  have houtside : StartsOutside ["DEF"] (t :: us) := by
    rw [startsOutside_cons, ht]
    decide
  rw [Program.ofTokens, TokenInput.ofList,
    program_eq_of_derives hderives hts hneed houtside fun hnil => absurd hnil hmethods]
  rfl

/-- Two texts with blanks between them are cut into the tokens of both. -/
lemma tokenize_append {a b w : String} (ha : tokenize a = .ok ts) (hb : tokenize b = .ok us)
    (hne : w ≠ "") (hw : ∀ c ∈ w.toList, c ∈ blanks) :
    tokenize (a ++ w ++ b) = .ok (ts ++ us.map (Token.shift (a.length + w.length))) := by
  obtain ⟨c, gap, hgap⟩ := List.exists_cons_of_ne_nil
    (show w.toList ≠ [] from fun hnil => hne (String.toList_eq_nil_iff.1 hnil))
  rw [hgap, List.forall_mem_cons] at hw
  obtain ⟨hc, hblanks⟩ := hw
  have hfirst := Cutting.iff_tokenize_eq.2 ha
  have hsecond := (Cutting.iff_tokenize_eq.2 hb).shift (a.length + w.length)
  have hplace : 0 + (a.length + w.length) = 0 + a.toList.length + 1 + gap.length := by
    rw [String.length_toList, ← String.length_toList (s := w), hgap, List.length_cons]
    omega
  rw [hplace] at hsecond
  have hcut := hfirst.append (isBlank_iff.2 hc) (.inr ⟨ts, rfl⟩)
    (hsecond.after_blanks fun d hd => isBlank_iff.2 (hblanks d hd))
  rw [← Cutting.iff_tokenize_eq]
  have htext : (a ++ w ++ b).toList = a.toList ++ c :: (gap ++ b.toList) := by
    simp [hgap]
  rw [htext]
  exact hcut

end Programs

lemma Program.ofText_eq_ok_iff {limit : Nat} {text : String} {p : Program} :
    ofText limit text = .ok p ↔ ∃ ts, tokenize text = .ok ts ∧ ofTokens limit ts = .ok p := by
  unfold ofText
  cases tokenize text <;> simp [bind, Except.bind]

/-- A field, a method or a statement that has been read is read in the same way whatever follows it.
And two texts that are programs are the program of both together if there are blanks between them,
unless methods come before fields: then the text is refused at the first token of the second one. -/
theorem selfDelimiting_concatenates :
    (∀ construct ∈ Construct.closed, ∀ limit input node output,
      construct.rule limit input = .ok node output →
        ∃ ts, input.ahead = ts ++ output.ahead ∧
          ∀ rest stop, construct.rule limit ⟨ts ++ rest, stop⟩ = .ok node ⟨rest, stop⟩) ∧
    ∀ (limit : Nat) (a b w : String) (p q : Program),
      Program.ofText limit a = .ok p → Program.ofText limit b = .ok q →
      w ≠ "" → (∀ c ∈ w.toList, c ∈ blanks) →
      (p.methods = [] ∨ q.fields = [] → Program.ofText limit (a ++ w ++ b) = .ok (p.append q)) ∧
      (p.methods ≠ [] → q.fields ≠ [] → ∃ t us, tokenize b = .ok (t :: us) ∧
        Program.ofText limit (a ++ w ++ b) =
          .error ⟨.expected "`DEF`", a.length + w.length + t.offset⟩) := by
  constructor
  · intro construct hclosed limit input node output hr
    obtain ⟨ts, hahead, -, hread⟩ :=
      Construct.selfDelimiting hclosed limit input node output hr
    exact ⟨ts, hahead, hread⟩
  · intro limit a b w p q hp hq hne hw
    obtain ⟨ts, ha, hp⟩ := Program.ofText_eq_ok_iff.1 hp
    obtain ⟨us, hb, hq⟩ := Program.ofText_eq_ok_iff.1 hq
    have htext := tokenize_append ha hb hne hw
    have hspelled := wellSpelled_of_tokenize htext
    have hshift := ofTokens_shift hq (a.length + w.length)
    constructor
    · intro horder
      exact Program.ofText_eq_ok_iff.2 ⟨_, htext, ofTokens_append hspelled hp hshift horder⟩
    · intro hmethods hfields
      obtain ⟨hderives, -⟩ := (Program.ofTokens_eq_ok_iff (wellSpelled_of_tokenize hb)).1 hq
      obtain ⟨t, us, rfl, ht⟩ := exists_let_of_fields hderives hfields
      have herror := ofTokens_append_error (t := t.shift (a.length + w.length))
        (wellSpelled_of_tokenize ha) hp hmethods ht (us.map (Token.shift (a.length + w.length)))
      refine ⟨t, us, hb, ?_⟩
      rw [Program.ofText, htext, Nat.add_comm (a.length + w.length)]
      exact herror

/-- A statement before another one; a field and a method in both orders. -/
theorem selfDelimiting_concatenates_field :
    (∃ ts rest, tokenize "x; y" = .ok (ts ++ rest) ∧ ∀ us stop,
      Construct.statement.rule 1 ⟨ts ++ us, stop⟩ =
        .ok (.statement (.expression (.var "x"))) ⟨us, stop⟩) ∧
    Program.ofText 1 ("LET x;" ++ "\t" ++ "DEF f() DO END") =
      .ok ⟨[⟨"x", none, none⟩], [⟨"f", [], []⟩]⟩ ∧
    Program.ofText 1 ("DEF f() DO END" ++ "\t" ++ "LET x;") = .error ⟨.expected "`DEF`", 15⟩ := by
  have hstatement : tokenize "x; y" =
      .ok [⟨.identifier, "x", 0⟩, ⟨.operator, ";", 1⟩, ⟨.identifier, "y", 3⟩] := by cbv
  have hread : Construct.statement.rule 1
      ⟨[⟨.identifier, "x", 0⟩, ⟨.operator, ";", 1⟩, ⟨.identifier, "y", 3⟩], 4⟩ =
        .ok (.statement (.expression (.var "x"))) ⟨[⟨.identifier, "y", 3⟩], 4⟩ := by cbv
  have hfield : Program.ofText 1 "LET x;" = .ok ⟨[⟨"x", none, none⟩], []⟩ := by cbv
  have hmethod : Program.ofText 1 "DEF f() DO END" = .ok ⟨[], [⟨"f", [], []⟩]⟩ := by cbv
  have hblank : ∀ c ∈ "\t".toList, c ∈ blanks := by simp [blanks]
  refine ⟨?_, ?_, ?_⟩
  · obtain ⟨ts, hts, hreads⟩ := selfDelimiting_concatenates.1 _ (by decide) 1 _ _ _ hread
    exact ⟨ts, _, hstatement.trans (congrArg Except.ok hts), hreads⟩
  · exact (selfDelimiting_concatenates.2 1 _ _ _ _ _ hfield hmethod (by decide) hblank).1 (.inl rfl)
  · obtain ⟨t, us, hlet, herror⟩ := (selfDelimiting_concatenates.2 1 _ _ _ _ _ hmethod hfield
      (by decide) hblank).2 (by simp) (by simp)
    have hfirst : tokenize "LET x;" =
        .ok [⟨.identifier, "LET", 0⟩, ⟨.identifier, "x", 4⟩, ⟨.operator, ";", 5⟩] := by cbv
    obtain ⟨rfl, -⟩ := List.cons.inj (Except.ok.inj (hlet.symm.trans hfirst))
    exact herror

end LetDef
