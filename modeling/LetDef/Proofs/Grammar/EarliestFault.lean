import LetDef.Proofs.Grammar.Agreement
import LetDef.Proofs.Grammar.Parallel
import LetDef.Proofs.Grammar.Viability

/-!
# Faults are found as early as possible

When a program is refused, some tokens have been read and the fault is placed at the next one.  Two
facts make this the best place there is.

* What comes after that token had no influence: another list that goes as far as this token is
  refused with the same fault.
* What comes before it was right: the tokens that have been read are the start of a program, unless
  they nest too deeply or hold a malformed literal.

The first fact is a comparison of two runs that lasts as long as they read what the two lists have
in common (`Coupling.ofCommonStart`).  The second one is about a single run and is shown rule by
rule: each of them is viable, with the same rule under the next larger limit to complete what has
been read.  The larger limit is needed.  A method whose `DO` is missing may be refused at a limit of
zero, where no block can be read at all.
-/

namespace LetDef

open Rule Follow Grammar

/-! ## Expressions -/

/-- No mark and no word that continues an expression. -/
def Follow.afterExpression : Follow := outside Rank.whole.continuers

namespace Grammar

variable {F F₁ S : Follow}

lemma afterExpression_of_ahead {words : List String}
    (h : words ⊆ [")", ",", ";", "=", "DO"]) {o : Option Token} (ho : ahead words o) :
    afterExpression o := by
  have hall : ∀ text ∈ [")", ",", ";", "=", "DO"], text ∉ Rank.whole.continuers := by decide
  exact outside_of_ahead (fun text htext => hall text (h htext)) ho

/-- The rules for the expressions inside another one are viable. -/
abbrev ViableNested (nested nested' : Rule Expr) : Prop :=
  Viable afterExpression (is .someName) nested nested'

namespace ViableNested

variable {nested nested' : Rule Expr}

/-- In a list of arguments an expression is followed by a comma or by the closing parenthesis. -/
lemma inList (h : ViableNested nested nested') :
    ViableInList afterExpression (is .someName) nested nested' where
  viable := h
  follow _ := afterExpression_of_ahead (by simp)
  follow_none := fun _ => nofun
  starts _ := outside_of_is (by decide)
  not_starts_none := not_is_none _

lemma arguments (h : ViableNested nested nested') :
    Viable (outside ["("]) (outside ["("]) (introduced "(" (parenthesized nested))
      (introduced "(" (parenthesized nested')) :=
  h.inList.parenthesized.introduced fun _ ho => ⟨trivial, ho⟩

lemma groupRest (h : ViableNested nested nested') :
    Viable F (is .someName) (groupRest nested) (groupRest nested') :=
  h.bind (fun inner => viable_closingParen.map fun _ => Expr.group inner)
    fun _ ho => afterExpression_of_ahead (by simp) (ahead_of_is_mark (List.mem_singleton_self _) ho)

lemma nameRest (h : ViableNested nested nested') (name : String) :
    Viable (outside ["("]) (outside ["("]) (nameRest nested name) (nameRest nested' name) := by
  refine h.arguments.bind (fun o => ?_) fun _ => id
  cases o with
  | none => exact .pure _ _
  | some es => exact .pure _ _

lemma selectionRest (h : ViableNested nested nested') (t : Token) :
    Viable (outside ["("]) (outside ["("]) (selectionRest nested t) (selectionRest nested' t) := by
  refine h.arguments.bind (fun o => ?_) fun _ => id
  cases o with
  | none => exact .pure _ _
  | some es => exact .pure _ _

/-- A primary expression is viable: whatever it fails at, some name would have been an expression.
-/
lemma primary (h : ViableNested nested nested') :
    Viable (outside ["("]) (is .someName) (primary nested) (primary nested') where
  run input := by
    rcases input with ⟨_ | ⟨t, tail⟩, stop⟩
    · rw [primary_nil]
      exact .refused
    · cases hopening : Opening.ofToken t with
      | literal value =>
        have hread : ∀ (nested : Rule Expr) rest stop, Grammar.primary nested ⟨t :: rest, stop⟩ =
            (Pure.pure (.literal value) : Rule Expr) ⟨rest, stop⟩ := by
          intro nested rest stop
          rw [primary_cons, hopening]
          rfl
        exact .cons (.pure _ (.literal value)) (hread nested tail stop) (hread nested')
      | malformed =>
        have hfail : Grammar.primary nested ⟨t :: tail, stop⟩ =
            .error ⟨.malformedLiteral, t.offset⟩ ⟨tail, stop⟩ := by
          rw [primary_cons, hopening]
        rw [hfail]
        exact .error (List.singleton_append).symm fun _ hcause => absurd rfl hcause.2
      | group =>
        have hread : ∀ (nested : Rule Expr) rest stop, Grammar.primary nested ⟨t :: rest, stop⟩ =
            Grammar.groupRest nested ⟨rest, stop⟩ := by
          intro nested rest stop
          rw [primary_cons, hopening]
        exact .cons h.groupRest (hread nested tail stop) (hread nested')
      | name =>
        have hread : ∀ (nested : Rule Expr) rest stop, Grammar.primary nested ⟨t :: rest, stop⟩ =
            Grammar.nameRest nested t.literal ⟨rest, stop⟩ := by
          intro nested rest stop
          rw [primary_cons, hopening]
        exact .cons (h.nameRest t.literal) (hread nested tail stop) (hread nested')
      | nothing =>
        have hfail : Grammar.primary nested ⟨t :: tail, stop⟩ =
            .error ⟨.invalidPrimaryExpression, t.offset⟩ ⟨t :: tail, stop⟩ := by
          rw [primary_cons, hopening]
        rw [hfail]
        exact .refused
  sample := ⟨[.someName], .var "x", fun _ hrest => ⟨rfl, primary_reads_var rfl hrest⟩⟩

lemma selection (h : ViableNested nested nested') :
    ViableItem (outside ["("]) (Pattern.literal ".").fits (selection nested)
      (selection nested') := by
  intro t tail stop _
  have hrest : Viable (outside ["("]) (is .someName)
      (expect (.kind .identifier) .missingIdentifier >>= Grammar.selectionRest nested)
      (expect (.kind .identifier) .missingIdentifier >>= Grammar.selectionRest nested') :=
    (viable_expect rfl _).before h.selectionRest
  exact .cons hrest rfl fun _ _ => rfl

/-- A chain of selections is viable, up to what would continue it. -/
lemma secondary (h : ViableNested nested nested') :
    Viable (outside Rank.secondary.continuers) (is .someName) (secondary nested)
      (secondary nested') := by
  have hfollow : ∀ o, outside Rank.secondary.continuers o →
      outside ["("] o ∧ ¬ o.any (Pattern.literal ".").fits := by
    intro o ho
    obtain ⟨hpoint, hparen⟩ := (@outside_append_iff ["."] ["("] o).1 ho
    exact ⟨hparen, not_any_literal_of_outside hpoint⟩
  have hmany : Viable (outside Rank.secondary.continuers) (outside Rank.secondary.continuers)
      (manyFrom "." (Grammar.selection nested)) (manyFrom "." (Grammar.selection nested')) :=
    h.selection.many hfollow ⟨none, by simp [outside]⟩
  exact h.primary.bind (fun receiver => hmany.map fun _ => _) fun o ho => (hfollow o ho).1

end ViableNested

/-- Operators may follow an operand, so what is said about the operand is said about what follows
the operators, too. -/
lemma viable_leftNested {operators words : List String} {operand operand' : Rule Expr}
    (h : Viable (outside words) S operand operand') :
    Viable (outside (operators ++ words)) S (leftNested operators operand)
      (leftNested operators operand') := by
  have hoperation : ViableItem (outside words) (Pattern.oneOf operators).fits
      (operation operand) (operation operand') :=
    fun t _ _ _ => .cons (h.map fun right => (t.literal, right)) rfl fun _ _ => rfl
  have hmany : Viable (outside (operators ++ words)) (outside (operators ++ words))
      (many (Pattern.oneOf operators).fits (operation operand))
      (many (Pattern.oneOf operators).fits (operation operand')) := by
    refine hoperation.many (fun o ho => ?_) ⟨none, by simp [outside]⟩
    obtain ⟨hoperators, hwords⟩ := outside_append_iff.1 ho
    exact ⟨hwords, not_any_oneOf_of_outside hoperators⟩
  exact h.bind (fun first => hmany.map (applyAll first)) fun _ ho => (outside_append_iff.1 ho).2

/-- Whole expressions are read by four levels of operators above the chains of selections. -/
lemma ViableNested.logical {nested nested' : Rule Expr} (h : ViableNested nested nested') :
    ViableNested (logical nested) (logical nested') :=
  viable_leftNested (viable_leftNested (viable_leftNested (viable_leftNested h.secondary)))

/-- A name alone is an expression that can be put where one is due. -/
lemma sample_expression (limit : Nat) :
    Sample afterExpression (is .someName) (expression (limit + 1)) := by
  have hname : Derives [.someName] (.expression .primary (.var "x")) := .var ⟨rfl, by decide⟩
  -- A name alone is an expression of every rank.
  have hwhole : Derives [.someName] (.expression .whole (.var "x")) :=
    @Derives.ofOperand .logical _ _ (@Derives.ofOperand .equality _ _
      (@Derives.ofOperand .additive _ _
        (@Derives.ofOperand .multiplicative _ _ (.ofPrimary hname))))
  have hspelled : ∀ t ∈ [Token.someName], t.WellSpelled :=
    List.forall_mem_singleton.2 (spelling_of_all 'x' [] rfl rfl)
  have hneed : (Expr.var "x").need ≤ limit + 1 := Nat.le_add_left 1 limit
  exact ⟨[.someName], .var "x", fun rest hrest =>
    ⟨rfl, expression_reads (isRead_of_derives hwhole hspelled) hneed hrest⟩⟩

/-- Expressions are viable under the next larger limit, by induction on the limit. -/
theorem viableNested_expression (limit : Nat) :
    ViableNested (expression limit) (expression (limit + 1)) := by
  induction limit with
  | zero =>
    refine ⟨fun input => ?_, sample_expression 0⟩
    exact .refused
  | succ limit ih => exact ih.logical

/-! ## Statements -/

/-- The rules for what a statement contains are viable. -/
structure ViableInner (inner inner' : Inner Rule) : Prop where
  expression : ViableNested inner.expression inner'.expression
  block : ∀ terminator, Viable (fitting terminator) (fitting terminator) (inner.block terminator)
    (inner'.block terminator)

lemma afterExpression_of_is_mark {text : String} (h : text ∈ [")", ",", ";", "=", "DO"])
    {o : Option Token} (ho : is (.mark text) o) : afterExpression o :=
  afterExpression_of_ahead (by simpa using h)
    (ahead_of_is_mark (List.mem_singleton_self text) ho)

/-- An expression or a name that a mark introduces, or nothing, before a semicolon. -/
lemma viable_introduced_of_semicolon {α : Type} {item item' : Rule α} {text : String}
    (h : Viable F₁ S item item') (htext : text ≠ ";") (hF : ∀ o, ahead [";"] o → F₁ o) :
    Viable (ahead [";"]) (ahead [";"]) (introduced text item) (introduced text item') := by
  refine h.introduced fun o ho => ⟨hF o ho, outside_of_ahead ?_ ho⟩
  simpa using htext.symm

/-- A binding can be completed from any place in it. -/
lemma ViableNested.letBinding {nested nested' : Rule Expr} (h : ViableNested nested nested') :
    Viable F (is (.mark "LET")) (letBinding nested) (letBinding nested') := by
  have htype : Viable (ahead [";"]) (ahead [";"]) (introduced ":" identifier)
      (introduced ":" identifier) :=
    viable_introduced_of_semicolon (viable_identifier (F := anything)) (by decide)
      fun _ _ => trivial
  have hvalue : Viable (ahead [";"]) (ahead [";"]) (introduced "=" nested)
      (introduced "=" nested') :=
    viable_introduced_of_semicolon h (by decide) fun _ => afterExpression_of_ahead (by simp)
  have hbinding : Viable (ahead [";"]) (is .someName) (binding nested) (binding nested') :=
    viable_identifier.before fun name => htype.bind (fun typeName => hvalue.map _) fun _ => id
  exact (viable_word "LET").before fun _ =>
    hbinding.bind (fun introduced => viable_semicolon.map _)
      fun _ => ahead_of_is_mark (List.mem_singleton_self _)

namespace ViableInner

variable {inner inner' : Inner Rule}

lemma declaration (h : ViableInner inner inner') :
    Viable F (is (.mark "LET")) (declaration inner) (declaration inner') :=
  h.expression.letBinding.map _

/-- A block between its words can be completed from any place in it. -/
lemma enclosed (h : ViableInner inner inner') :
    Viable F (is (.mark "DO")) (enclosed inner) (enclosed inner') :=
  (viable_word "DO").before fun _ =>
    (h.block (.literal "END")).bind (fun body => (viable_word "END").map fun _ => body)
      fun _ ho => fitting_of_ahead (by simp [Pattern.fits])
        (ahead_of_is_mark (List.mem_singleton_self "END") ho)

lemma conditional (h : ViableInner inner inner') :
    Viable F (is (.mark "IF")) (conditional inner) (conditional inner') := by
  have helse : Viable (ahead ["END"]) (ahead ["END"])
      (introduced "ELSE" (inner.block (.literal "END")))
      (introduced "ELSE" (inner'.block (.literal "END"))) :=
    (h.block (.literal "END")).introduced fun o ho =>
      ⟨fitting_of_ahead (by simp [Pattern.fits]) ho, outside_of_ahead (by decide) ho⟩
  have hthen : ∀ o, ahead ["END"] o → fitting (.oneOf ["ELSE", "END"]) o :=
    fun _ => fitting_of_ahead fun t ht => by simp [Pattern.fits, List.mem_singleton.1 ht]
  have hends : ∀ o, is (.mark "END") o → ahead ["END"] o :=
    fun _ => ahead_of_is_mark (List.mem_singleton_self "END")
  exact (viable_word "IF").before fun _ => h.expression.bind (fun condition =>
    (viable_word "DO").before fun _ => (h.block (.oneOf ["ELSE", "END"])).bind (fun thenBlock =>
      helse.bind (fun elseBlock => (viable_word "END").map _) hends) hthen)
    fun _ => afterExpression_of_is_mark (by simp)

lemma forEach (h : ViableInner inner inner') :
    Viable F (is (.mark "FOR")) (forEach inner) (forEach inner') :=
  (viable_word "FOR").before fun _ => viable_identifier.before fun name =>
    (viable_word "IN").before fun _ =>
      h.expression.bind (fun value => h.enclosed.map _) fun _ =>
        afterExpression_of_is_mark (by simp)

lemma whileLoop (h : ViableInner inner inner') :
    Viable F (is (.mark "WHILE")) (whileLoop inner) (whileLoop inner') :=
  (viable_word "WHILE").before fun _ =>
    h.expression.bind (fun condition => h.enclosed.map _)
      fun _ => afterExpression_of_is_mark (by simp)

lemma result (h : ViableInner inner inner') :
    Viable F (is (.mark "RETURN")) (result inner) (result inner') := by
  have hvalue : Viable (ahead [";"]) anything (unlessSeen ";" inner.expression)
      (unlessSeen ";" inner'.expression) := by
    refine h.expression.unlessSeen (fun _ => afterExpression_of_ahead (by simp)) fun hall => ?_
    -- An expression starts with another token than a semicolon.
    have hsemicolon : is .someName (some (.mark ";")) := hall _ ⟨_, rfl, by decide⟩
    exact absurd (Option.some.inj hsemicolon) (by decide)
  exact (viable_word "RETURN").before fun _ =>
    hvalue.bind (fun value => viable_semicolon.map _)
      fun _ => ahead_of_is_mark (List.mem_singleton_self _)

/-- A statement without a word of its own can be completed from any place in it. -/
lemma evaluation (h : ViableInner inner inner') :
    Viable F (is .someName) (evaluation inner) (evaluation inner') := by
  have hvalue : Viable (ahead [";"]) (ahead [";"]) (introduced "=" inner.expression)
      (introduced "=" inner'.expression) :=
    viable_introduced_of_semicolon h.expression (by decide)
      fun _ => afterExpression_of_ahead (by simp)
  refine h.expression.bind (fun receiver => hvalue.bind (fun o => ?_) fun _ =>
    ahead_of_is_mark (List.mem_singleton_self ";")) fun _ => afterExpression_of_ahead (by simp)
  cases o with
  | none => exact viable_semicolon.map _
  | some value => exact viable_semicolon.map _

lemma form (h : ViableInner inner inner') (form : Form) :
    ∃ t, Viable anything (is t) (formRule inner form) (formRule inner' form) := by
  cases form with
  | declaration => exact ⟨_, h.declaration⟩
  | conditional => exact ⟨_, h.conditional⟩
  | forEach => exact ⟨_, h.forEach⟩
  | whileLoop => exact ⟨_, h.whileLoop⟩
  | result => exact ⟨_, h.result⟩
  | evaluation => exact ⟨_, h.evaluation⟩

/-- A statement is viable wherever one is due, whatever its form. -/
theorem statement (h : ViableInner inner inner') (continues : Token → Bool) :
    ViableItem anything continues (statement inner) (statement inner') := by
  intro t tail stop _
  obtain ⟨u, hform⟩ := h.form (Form.ofToken? (some t))
  have hrun := hform.run ⟨t :: tail, stop⟩
  rw [statement_eq]
  refine hrun.of_head (fun hall => not_is_none u (hall none trivial)) fun other hother => ?_
  rw [statement_eq, hother]
  rfl

/-- Statements up to a token that fits the pattern. -/
lemma statements (h : ViableInner inner inner') (terminator : Pattern) :
    Viable (fitting terminator) (fitting terminator) (statements inner terminator)
      (statements inner' terminator) := by
  refine (h.statement _).many (fun o ho => ⟨trivial, ?_⟩) ⟨none, trivial⟩
  cases o with
  | none => simp
  | some t => simpa using ho t rfl

end ViableInner

/-- The empty block can be put where one is due. -/
lemma sample_block (limit : Nat) (terminator : Pattern) :
    Sample (fitting terminator) (fitting terminator) (block (limit + 1) terminator) := by
  refine ⟨[], [], fun rest hrest => ⟨hrest, ?_⟩⟩
  have hreads : (statements ⟨expression limit, block limit⟩ terminator).Reads [] [] rest :=
    many_reads_nil _ fun t ht => by simpa using hrest t ht
  exact hreads

/-- Blocks are viable under the next larger limit, by induction on the limit. -/
theorem viable_block (limit : Nat) (terminator : Pattern) :
    Viable (fitting terminator) (fitting terminator) (block limit terminator)
      (block (limit + 1) terminator) := by
  induction limit generalizing terminator with
  | zero =>
    refine ⟨fun input => ?_, sample_block 0 terminator⟩
    exact .refused
  | succ limit ih =>
    have hinner : ViableInner ⟨expression limit, block limit⟩
        ⟨expression (limit + 1), block (limit + 1)⟩ := ⟨viableNested_expression limit, ih⟩
    exact hinner.statements terminator

theorem viableInner_innerAt (limit : Nat) :
    ViableInner (innerAt limit) (innerAt (limit + 1)) :=
  ⟨viableNested_expression limit, viable_block limit⟩

/-! ## Methods and programs -/

lemma endOfProgram_reads {rest : List Token} (h : rest.head? = none) :
    endOfProgram.Reads [] () rest := by
  rw [List.head?_eq_none_iff.1 h]
  exact fun _ => rfl

lemma viable_endOfProgram : Viable ends ends endOfProgram endOfProgram where
  run input := by
    rcases input with ⟨_ | ⟨t, tail⟩, stop⟩
    · refine .ok (List.nil_append _).symm (fun _ _ => id) fun rest hrest => ?_
      exact endOfProgram_reads (hrest.elim id id)
    · exact .refused
  sample := ⟨[], (), fun _ hrest => ⟨hrest, endOfProgram_reads hrest⟩⟩

/-- Phrases that a word introduces, up to the end of the list. -/
lemma viable_manyFrom_of_ends {α : Type} {item item' : Rule α} {text : String}
    (h : Viable anything (is (.mark text)) item item') :
    Viable ends ends (manyFrom text item) (manyFrom text item') := by
  have hitem := h.viableItem (fun hall => not_is_none _ (hall none trivial))
    (Pattern.literal text).fits
  refine hitem.many (fun o ho => ⟨trivial, ?_⟩) ⟨none, trivial⟩
  rw [show o = none from ho]
  simp

namespace ViableInner

variable {inner inner' : Inner Rule}

lemma method (h : ViableInner inner inner') :
    Viable F (is (.mark "DEF")) (method inner) (method inner') := by
  have hparameters : ViableInList anything (is .someName) identifier identifier :=
    ⟨viable_identifier, fun _ _ => trivial, trivial, fun _ => outside_of_is (by decide),
      not_is_none _⟩
  exact (viable_word "DEF").before fun _ => viable_identifier.before fun name =>
    (viable_word "(").before fun _ => hparameters.parenthesized.before fun parameters =>
      h.enclosed.map _

/-- A program can be completed from any place in it up to the end of the list. -/
theorem program (h : ViableInner inner inner') :
    Viable ends ends (program inner) (program inner') :=
  (viable_manyFrom_of_ends h.expression.letBinding).bind (fun _ =>
    (viable_manyFrom_of_ends h.method).bind (fun _ => viable_endOfProgram.map _)
      fun _ => id) fun _ => id

end ViableInner

end Grammar

/-! ## Lists with a common start -/

/-- Runs on two lists that go on differently after a common start. -/
def Coupling.ofCommonStart (tail tail' : List Token) : Coupling where
  token := Eq
  input i j := ∃ ws ≠ [], i.ahead = ws ++ tail ∧ j.ahead = ws ++ tail'
  fault := Eq
  parted i := i.ahead.length ≤ tail.length
  givesUp _ := False
  kind_eq h := congrArg Token.kind h
  literal_eq h := congrArg Token.literal h
  head := by
    rintro i j ⟨ws, hne, hi, hj⟩
    obtain ⟨t, ws, rfl⟩ := List.exists_cons_of_ne_nil hne
    rw [hi, hj]
    exact .some rfl
  shorter_iff := by
    rintro i j i' j' ⟨ws, -, hi, hj⟩ ⟨vs, -, hi', hj'⟩
    simp only [hi, hj, hi', hj', List.length_append, Nat.add_lt_add_iff_right]
  advance := by
    rintro i j ⟨ws, hne, hi, hj⟩
    obtain ⟨t, ws, rfl⟩ := List.exists_cons_of_ne_nil hne
    have hi' : i.advance.ahead = ws ++ tail := congrArg (List.drop 1) hi
    have hj' : j.advance.ahead = ws ++ tail' := congrArg (List.drop 1) hj
    by_cases hws : ws = []
    · left
      rw [hi', hws, List.nil_append]
    · exact .inr ⟨ws, hws, hi', hj'⟩
  fault_ahead := by
    rintro ⟨iahead, istop⟩ ⟨jahead, jstop⟩ cause ⟨ws, hne, hi, hj⟩ -
    obtain ⟨t, ws, rfl⟩ := List.exists_cons_of_ne_nil hne
    obtain rfl : iahead = t :: ws ++ tail := hi
    obtain rfl : jahead = t :: ws ++ tail' := hj
    rfl
  fault_malformed h _ := malformed_eq h
  parted_advance h := Nat.le_trans (List.drop_sublist 1 _).length_le h
  token_self _ _ _ := rfl

namespace Program

variable {limit i : Nat} {ts us : List Token} {fault : Fault} {output : TokenInput}

/-- The tokens from one on, as that token and the tokens after it. -/
lemma drop_eq_append (hi : i < ts.length) :
    ts.drop i = (ts.take (i + 1)).drop i ++ ts.drop (i + 1) := by
  have hle : i ≤ (ts.take (i + 1)).length := by
    rw [List.length_take]
    omega
  rw [← List.drop_append_of_le_length hle, List.take_append_drop]

/-- What comes after the token at the fault does not matter. -/
lemma fault_of_commonStart
    (h : program (innerAt limit) (TokenInput.ofList ts) = .error fault output)
    (hi : i < ts.length) (hahead : output.ahead = ts.drop i)
    (hstart : us.take (i + 1) = ts.take (i + 1)) :
    ∃ output', program (innerAt limit) (TokenInput.ofList us) = .error fault output' ∧
      output'.ahead = us.drop i := by
  let C := Coupling.ofCommonStart (ts.drop (i + 1)) (us.drop (i + 1))
  have hinput : C.input (TokenInput.ofList ts) (TokenInput.ofList us) := by
    refine ⟨ts.take (i + 1), ?_, (List.take_append_drop _ _).symm, ?_⟩
    · rw [← List.length_pos_iff, List.length_take]
      omega
    · rw [← hstart]
      exact (List.take_append_drop _ _).symm
  have hmeets := (Coupling.couplesInner_innerAt (C.admits_self limit)).program.meets _ _ hinput
  rw [h] at hmeets
  generalize program (innerAt limit) (TokenInput.ofList us) = res at hmeets
  cases hmeets with
  | error hfault hrest =>
    obtain rfl := hfault
    obtain ⟨ws, -, hws, hws'⟩ := hrest
    have htoken : ws = (ts.take (i + 1)).drop i := by
      rw [hahead, drop_eq_append hi] at hws
      exact (List.append_cancel_right hws).symm
    have hi' : i < us.length := by
      have hlength := congrArg List.length hstart
      simp only [List.length_take] at hlength
      omega
    refine ⟨_, rfl, ?_⟩
    rw [hws', htoken, ← hstart, ← drop_eq_append hi']
  | parted hrest =>
    -- The token at the fault belongs to the common start and has not been read.
    have hle : (ts.drop i).length ≤ (ts.drop (i + 1)).length := hahead ▸ hrest
    simp only [List.length_drop] at hle
    omega
  | gaveUp hcause => exact hcause.elim

/-- What comes before the fault is the start of a program. -/
lemma exists_completion_of_fault
    (h : program (innerAt limit) (TokenInput.ofList ts) = .error fault output) :
    ∃ i ≤ ts.length, output.ahead = ts.drop i ∧ (Recoverable fault.cause →
      ∃ us p, ofTokens (limit + 1) (ts.take i ++ us) = .ok p) := by
  have hviable := (viableInner_innerAt limit).program
  have hrun := hviable.run (TokenInput.ofList ts)
  rw [h] at hrun
  cases hrun with
  | @error us _ _ hahead hcompletes =>
    have hts : ts = us ++ output.ahead := hahead
    refine ⟨us.length, by rw [hts, List.length_append]; omega, by rw [hts, List.drop_left],
      fun hcause => ?_⟩
    obtain ⟨vs, p, hvs⟩ :=
      exists_completion hahead (fun hne => hcompletes hne hcause) hviable.sample
    obtain ⟨-, hread⟩ := hvs [] rfl
    have hwhole := hread (TokenInput.ofList (us ++ vs)).endOffset
    rw [List.append_nil] at hwhole
    refine ⟨vs, p, ?_⟩
    rw [hts, List.take_left, ofTokens_eq_ok_iff_reads]
    exact ⟨_, hwhole⟩

end Program

/-- Let a program be refused after `i` tokens.  If there is a token at the fault, every list that
starts with the same tokens up to that one is refused at the same place with the same fault.  And
unless the tokens nest too deeply or the last of them is a malformed literal, the first `i` tokens
are the start of a program. -/
theorem fault_isEarliest (limit : Nat) (ts : List Token) (fault : Fault) (output : TokenInput)
    (h : program (innerAt limit) (TokenInput.ofList ts) = .error fault output) :
    ∃ i ≤ ts.length, output.ahead = ts.drop i ∧
      (i < ts.length → ∀ us : List Token, us.take (i + 1) = ts.take (i + 1) →
        ∃ output', program (innerAt limit) (TokenInput.ofList us) = .error fault output' ∧
          output'.ahead = us.drop i) ∧
      (fault.cause ≠ .recursionLimit → fault.cause ≠ .malformedLiteral →
        ∃ us p, Program.ofTokens (limit + 1) (ts.take i ++ us) = .ok p) := by
  obtain ⟨i, hi, hahead, hcompletion⟩ := Program.exists_completion_of_fault h
  refine ⟨i, hi, hahead, fun hlt us hstart => ?_, fun hlimit hmalformed => ?_⟩
  · exact Program.fault_of_commonStart h hlt hahead hstart
  · exact hcompletion ⟨hlimit, hmalformed⟩

/-- A semicolon in place of an argument, nine tokens into a program. -/
theorem fault_isEarliest_argument :
    ∃ ts output, tokenize "DEF f() DO g(x, ; END" = .ok ts ∧
      program (innerAt 3) (TokenInput.ofList ts) =
        .error ⟨.invalidPrimaryExpression, 16⟩ output ∧
      (∃ output', program (innerAt 3) (TokenInput.ofList (ts.take 10)) =
        .error ⟨.invalidPrimaryExpression, 16⟩ output') ∧
      ∃ us p, Program.ofTokens 4 (ts.take 9 ++ us) = .ok p := by
  have htext : tokenize "DEF f() DO g(x, ; END" =
      .ok [⟨.identifier, "DEF", 0⟩, ⟨.identifier, "f", 4⟩, ⟨.operator, "(", 5⟩,
        ⟨.operator, ")", 6⟩, ⟨.identifier, "DO", 8⟩, ⟨.identifier, "g", 11⟩,
        ⟨.operator, "(", 12⟩, ⟨.identifier, "x", 13⟩, ⟨.operator, ",", 14⟩,
        ⟨.operator, ";", 16⟩, ⟨.identifier, "END", 18⟩] := by cbv
  have hrefused : ∀ ts, tokenize "DEF f() DO g(x, ; END" = .ok ts →
      program (innerAt 3) (TokenInput.ofList ts) =
        .error ⟨.invalidPrimaryExpression, 16⟩ ⟨ts.drop 9, 21⟩ ∧ ts.length = 11 := by
    intro ts hts
    obtain rfl := Except.ok.inj (htext.symm.trans hts)
    exact ⟨by cbv, rfl⟩
  obtain ⟨ts, hts⟩ : ∃ ts, tokenize "DEF f() DO g(x, ; END" = .ok ts := ⟨_, htext⟩
  obtain ⟨hprogram, hlength⟩ := hrefused ts hts
  obtain ⟨i, hi, hahead, hstart, hcompletion⟩ := fault_isEarliest 3 ts _ _ hprogram
  obtain rfl : i = 9 := by
    have hcount := congrArg List.length hahead
    simp only [List.length_drop] at hcount
    omega
  obtain ⟨output', hsame, -⟩ := hstart (by omega) (ts.take 10) (by rw [List.take_take]; rfl)
  exact ⟨ts, _, hts, hprogram, ⟨output', hsame⟩, hcompletion (by simp) (by simp)⟩

end LetDef
