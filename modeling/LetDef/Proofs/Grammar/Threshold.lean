import LetDef.Proofs.Grammar.Agreement
import LetDef.Proofs.Grammar.Parallel

/-!
# The limit is a threshold

A limit does not change what is read, it only decides whether reading comes to its end.

* A run that does not end at the limit runs in the same way under every larger limit
  (`Construct.rule_of_le`).
* A program is read under exactly those limits that its need does not exceed, and under the others
  reading ends at the limit.

The second part needs more than the first.  A run under a large limit must be followed down to the
need of what it reads, where the smaller limit could have stopped it; `Fits` says that it does not,
and the lemmas about it go rule by rule, because the need of an answer is made from the needs of its
parts.  That the need cannot be undercut is part of soundness.
-/

namespace LetDef

open Rule Grammar

/-! ## Larger limits -/

/-- Runs on one input, of which the first may end at its limit. -/
def Coupling.ofLimits : Coupling where
  token := Eq
  input := Eq
  fault := Eq
  parted _ := False
  givesUp cause := cause = .recursionLimit
  kind_eq h := congrArg Token.kind h
  literal_eq h := congrArg Token.literal h
  head h := h ▸ optionRel_self fun _ _ => rfl
  shorter_iff h h' := by rw [h, h']
  advance h := .inr (congrArg TokenInput.advance h)
  fault_ahead h _ := by rw [h]
  fault_malformed h _ := malformed_eq h
  parted_advance := id
  token_self h := h.elim

/-- A limit may be compared with every larger one. -/
lemma Coupling.admits_ofLimits {limit limit' : Nat} (hle : limit ≤ limit') :
    Coupling.ofLimits.Admits limit limit' :=
  (Nat.eq_or_lt_of_le hle).imp id fun hlt => ⟨hlt, rfl⟩

/-- A run that does not use up its limit is the same run under the larger one. -/
lemma Coupling.Couples.eq_of_ofLimits {α : Type} {r s : Rule α}
    (hrs : Coupling.ofLimits.Couples r s) {input : TokenInput}
    (h : ∀ fault rest, r input = .error fault rest → fault.cause ≠ .recursionLimit) :
    s input = r input := by
  have hmeets := hrs.meets input input rfl
  generalize r input = x at h hmeets
  generalize s input = y at hmeets
  cases hmeets with
  | ok hrest => rw [show _ = _ from hrest]
  | error hfault hrest => rw [show _ = _ from hfault, show _ = _ from hrest]
  | parted hrest => exact hrest.elim
  | gaveUp hcause => exact absurd hcause (h _ _ rfl)

/-- A larger limit makes no difference to a run that the limit did not end. -/
theorem Construct.rule_of_le {limit limit' : Nat} (hle : limit ≤ limit') (construct : Construct)
    (input : TokenInput)
    (h : ∀ fault rest, construct.rule limit input = .error fault rest →
      fault.cause ≠ .recursionLimit) :
    construct.rule limit' input = construct.rule limit input :=
  (Coupling.couples_rule (Coupling.admits_ofLimits hle) construct).eq_of_ofLimits h

/-! ## Limits that are just large enough -/

/-- Where the first rule answers something with the property, the second rule runs in the same
way. -/
def Rule.Fits {α : Type} (P : α → Prop) (wide narrow : Rule α) : Prop :=
  ∀ input a rest, wide input = .ok a rest → P a → narrow input = .ok a rest

section Lists

variable {α : Type} {P : α → Prop} {wide narrow : Rule α}

/-- What is introduced by a word fits if it is there and fits. -/
lemma Rule.Fits.introduced (h : Fits P wide narrow) (text : String) :
    Fits (fun o => ∀ a ∈ o, P a) (introduced text wide) (introduced text narrow) := by
  intro input o rest hr hP
  simp only [Rule.introduced, bind_eq_ok_iff] at hr ⊢
  obtain ⟨b, mid, hfound, hr⟩ := hr
  refine ⟨b, mid, hfound, ?_⟩
  cases b with
  | false => exact hr
  | true =>
    simp only [if_true, bind_eq_ok_iff, pure_eq_ok_iff] at hr ⊢
    obtain ⟨a, last, ha, rfl, rfl⟩ := hr
    exact ⟨a, last, h _ _ _ ha (hP a rfl), rfl, rfl⟩

lemma Rule.Fits.unlessSeen (h : Fits P wide narrow) (text : String) :
    Fits (fun o => ∀ a ∈ o, P a) (unlessSeen text wide) (unlessSeen text narrow) := by
  intro input o rest hr hP
  simp only [Rule.unlessSeen, bind_eq_ok_iff] at hr ⊢
  obtain ⟨b, mid, hsees, hr⟩ := hr
  refine ⟨b, mid, hsees, ?_⟩
  cases b with
  | true => exact hr
  | false =>
    simp only [Bool.false_eq_true, if_false, bind_eq_ok_iff, pure_eq_ok_iff] at hr ⊢
    obtain ⟨a, last, ha, rfl, rfl⟩ := hr
    exact ⟨a, last, h _ _ _ ha (hP a rfl), rfl, rfl⟩

/-- A repetition fits if what it has read fits round by round, by induction on the tokens ahead. -/
lemma Rule.Fits.many (h : Fits P wide narrow) (continues : Token → Bool) :
    Fits (fun as => ∀ a ∈ as, P a) (many continues wide) (many continues narrow) := by
  intro input as rest hr hP
  induction hn : input.ahead.length using Nat.strongRecOn generalizing input as with
  | ind n ih =>
    by_cases hhead : input.ahead.head?.any continues
    · rw [many_eq_bind hhead, bind_eq_ok_iff] at hr ⊢
      obtain ⟨a, mid, ha, hr⟩ := hr
      unfold furtherRounds at hr
      split at hr
      · next hlt =>
        obtain ⟨bs, last, hbs, hpure⟩ := bind_eq_ok_iff.1 hr
        obtain ⟨rfl, rfl⟩ := pure_eq_ok_iff.1 hpure
        obtain ⟨hPa, hPbs⟩ := List.forall_mem_cons.1 hP
        refine ⟨a, mid, h _ _ _ ha hPa, ?_⟩
        rw [furtherRounds, if_pos hlt, bind_of_ok (ih _ (hn ▸ hlt) mid bs hbs hPbs rfl)]
        rfl
      · next hlt =>
        obtain ⟨rfl, rfl⟩ := EStateM.Result.ok.inj hr
        refine ⟨a, mid, h _ _ _ ha (hP a List.mem_cons_self), ?_⟩
        rw [furtherRounds, if_neg hlt]
    · rw [many_eq_of_not _ hhead] at hr ⊢
      exact hr

/-- A list fits if its items do. -/
lemma Rule.Fits.parenthesized (h : Fits P wide narrow) :
    Fits (fun as => ∀ a ∈ as, P a) (parenthesized wide) (parenthesized narrow) := by
  have hfurther : Fits P (further wide) (further narrow) := by
    intro input a rest hr hP
    simp only [further, furtherRest, bind_eq_ok_iff] at hr ⊢
    obtain ⟨_, i₁, hskip, b, i₂, hsees, hr⟩ := hr
    refine ⟨_, i₁, hskip, b, i₂, hsees, ?_⟩
    cases b with
    | true => exact hr
    | false => exact h _ _ _ hr hP
  intro input as rest hr hP
  simp only [Rule.parenthesized, bind_eq_ok_iff] at hr ⊢
  obtain ⟨b, mid, hfound, hr⟩ := hr
  refine ⟨b, mid, hfound, ?_⟩
  cases b with
  | true => exact hr
  | false =>
    simp only [Bool.false_eq_true, if_false, itemsRest, commaSeparated, manyFrom, bind_eq_ok_iff,
      pure_eq_ok_iff] at hr ⊢
    obtain ⟨_, i₁, ⟨a, i₂, ha, as, i₃, has, rfl, rfl⟩, _, i₄, hclose, rfl, rfl⟩ := hr
    obtain ⟨hPa, hPas⟩ := List.forall_mem_cons.1 hP
    exact ⟨_, _, ⟨a, i₂, h _ _ _ ha hPa, as, _, hfurther.many _ _ _ _ has hPas, rfl, rfl⟩, _, i₄,
      hclose, rfl, rfl⟩

end Lists

variable {limit : Nat} {nested nested' : Rule Expr}

/-! ### Expressions -/

/-- The arguments of a call fit if each of them does. -/
lemma largestNeed_le_iff {es : List Expr} :
    Expr.largestNeed es ≤ limit ↔ ∀ e ∈ es, e.need ≤ limit := by
  induction es with
  | nil => simp [Expr.largestNeed]
  | cons e es ih => rw [Expr.largestNeed, Nat.max_le, ih, List.forall_mem_cons, Expr.need]

/-- The largest need of the arguments in a selection. -/
def Grammar.Selection.nesting : Selection → Nat
  | .member _ => 0
  | .invoke _ arguments => Expr.largestNeed arguments

/-- A chain of selections nests as deeply as the deepest of its parts. -/
lemma nesting_selections_le_iff {selections : List Selection} {e : Expr} :
    (selections.foldl Selection.of e).nesting ≤ limit ↔
      e.nesting ≤ limit ∧ ∀ s ∈ selections, s.nesting ≤ limit := by
  induction selections generalizing e with
  | nil => simp
  | cons s selections ih =>
    rw [List.foldl_cons, ih, List.forall_mem_cons, ← and_assoc]
    cases s with
    | member name => simp [Selection.of, Selection.nesting, Expr.nesting]
    | invoke name arguments => simp [Selection.of, Selection.nesting, Expr.nesting]

/-- Operands side by side nest as deeply as the deepest of them. -/
lemma nesting_applyAll_le_iff {rest : List (String × Expr)} {e : Expr} :
    (applyAll e rest).nesting ≤ limit ↔
      e.nesting ≤ limit ∧ ∀ a ∈ rest, a.2.nesting ≤ limit := by
  unfold applyAll
  induction rest generalizing e with
  | nil => simp
  | cons a rest ih =>
    rw [List.foldl_cons, ih, List.forall_mem_cons, ← and_assoc, Expr.nesting, Nat.max_le]

/-- A group needs one more than what is in it, and the rule for it has one more. -/
lemma fits_primary (h : Fits (fun e => e.need ≤ limit) nested nested') :
    Fits (fun e => e.nesting ≤ limit) (primary nested) (primary nested') := by
  intro input e rest hr hneed
  rcases input with ⟨_ | ⟨t, ts⟩, stop⟩
  · simp [primary_nil] at hr
  rw [primary_cons] at hr ⊢
  cases hopening : Opening.ofToken t with
  | group =>
    simp only [hopening, groupRest, bind_eq_ok_iff, pure_eq_ok_iff] at hr ⊢
    obtain ⟨f, i₁, hf, _, i₂, hclose, rfl, rfl⟩ := hr
    exact ⟨f, i₁, h _ _ _ hf hneed, _, i₂, hclose, rfl, rfl⟩
  | name =>
    simp only [hopening, nameRest, bind_eq_ok_iff] at hr ⊢
    obtain ⟨o, mid, ho, hr⟩ := hr
    refine ⟨o, mid, h.parenthesized.introduced "(" _ _ _ ho fun es hes => ?_, hr⟩
    rw [Option.mem_def.1 hes] at hr
    obtain ⟨rfl, -⟩ := pure_eq_ok_iff.1 hr
    exact largestNeed_le_iff.1 hneed
  | _ => rwa [hopening] at hr

lemma fits_secondary (h : Fits (fun e => e.need ≤ limit) nested nested') :
    Fits (fun e => e.nesting ≤ limit) (secondary nested) (secondary nested') := by
  have hselection : Fits (fun s => s.nesting ≤ limit) (selection nested) (selection nested') := by
    intro input s rest hr hneed
    simp only [selection, selectionRest, bind_eq_ok_iff] at hr ⊢
    obtain ⟨_, i₁, hskip, name, i₂, hname, o, mid, ho, hr⟩ := hr
    refine ⟨_, i₁, hskip, name, i₂, hname, o, mid,
      h.parenthesized.introduced "(" _ _ _ ho fun es hes => ?_, hr⟩
    rw [Option.mem_def.1 hes] at hr
    obtain ⟨rfl, -⟩ := pure_eq_ok_iff.1 hr
    exact largestNeed_le_iff.1 hneed
  intro input e rest hr hneed
  simp only [secondary, manyFrom, bind_eq_ok_iff, pure_eq_ok_iff] at hr ⊢
  obtain ⟨receiver, i₁, hprimary, selections, i₂, hselections, rfl, rfl⟩ := hr
  obtain ⟨hreceiver, hneeds⟩ := nesting_selections_le_iff.1 hneed
  exact ⟨receiver, i₁, fits_primary h _ _ _ hprimary hreceiver, selections, _,
    hselection.many _ _ _ _ hselections hneeds, rfl, rfl⟩

/-- An expression of a level nests no deeper than its operands. -/
lemma Rule.Fits.leftNested {operand operand' : Rule Expr}
    (h : Fits (fun e => e.nesting ≤ limit) operand operand') (operators : List String) :
    Fits (fun e => e.nesting ≤ limit) (leftNested operators operand)
      (leftNested operators operand') := by
  have hoperation : Fits (fun a => a.2.nesting ≤ limit) (operation operand)
      (operation operand') := by
    intro input a rest hr hneed
    simp only [operation, bind_eq_ok_iff, pure_eq_ok_iff] at hr ⊢
    obtain ⟨t, i₁, hnext, e, i₂, he, rfl, rfl⟩ := hr
    exact ⟨t, i₁, hnext, e, _, h _ _ _ he hneed, rfl, rfl⟩
  intro input e rest hr hneed
  simp only [Grammar.leftNested, bind_eq_ok_iff, pure_eq_ok_iff] at hr ⊢
  obtain ⟨first, i₁, hfirst, operations, i₂, hoperations, rfl, rfl⟩ := hr
  obtain ⟨hneed, hneeds⟩ := nesting_applyAll_le_iff.1 hneed
  exact ⟨first, i₁, h _ _ _ hfirst hneed, operations, _,
    hoperation.many _ _ _ _ hoperations hneeds, rfl, rfl⟩

/-- An expression that fits into a limit is read under it as under any other one, by induction on
the limit. -/
lemma fits_expression (wide limit : Nat) :
    Fits (fun e => e.need ≤ limit) (expression wide) (expression limit) := by
  induction limit generalizing wide with
  -- Every expression needs one unit, so none fits here.
  | zero => exact fun _ e _ _ hneed => absurd hneed (Nat.not_succ_le_zero e.nesting)
  | succ limit ih =>
    cases wide with
    | zero => exact fun _ _ _ hr _ => absurd hr (by simp [expression, Rule.fail])
    | succ wide =>
      have hlogical := (((fits_secondary (ih wide)).leftNested Level.multiplicative.operators
        |>.leftNested Level.additive.operators).leftNested Level.equality.operators).leftNested
          Level.logical.operators
      exact fun input e rest hr hneed => hlogical input e rest hr (Nat.le_of_succ_le_succ hneed)

/-! ### Statements, methods and programs -/

/-- The rules of the second kind for what statements contain read what fits into the limit as those
of the first kind do. -/
structure Grammar.Inner.FitsInto (limit : Nat) (wide narrow : Inner Rule) : Prop where
  expression : Fits (fun e => e.need ≤ limit) wide.expression narrow.expression
  block : ∀ terminator, Fits (fun ss => Stmt.needOfBlock ss ≤ limit) (wide.block terminator)
    (narrow.block terminator)

lemma needOfOption_le_iff {o : Option Expr} :
    Expr.needOfOption o ≤ limit ↔ ∀ e ∈ o, e.need ≤ limit := by
  cases o <;> simp [Expr.needOfOption]

/-- A binding fits if its value does. -/
lemma fits_letBinding (h : Fits (fun e => e.need ≤ limit) nested nested') :
    Fits (fun b => b.need ≤ limit) (letBinding nested) (letBinding nested') := by
  intro input b rest hr hneed
  simp only [letBinding, binding, bind_eq_ok_iff, pure_eq_ok_iff] at hr ⊢
  obtain ⟨_, i₁, hlet, _, i₂, ⟨name, i₃, hname, typeName, i₄, htype, value, i₅, hvalue, rfl, rfl⟩,
    _, i₆, hsemicolon, rfl, rfl⟩ := hr
  exact ⟨_, i₁, hlet, _, _, ⟨name, i₃, hname, typeName, i₄, htype, value, _,
    h.introduced "=" _ _ _ hvalue (needOfOption_le_iff.1 hneed), rfl, rfl⟩, _, _, hsemicolon, rfl,
    rfl⟩

namespace Grammar.Inner.FitsInto

variable {wide narrow : Inner Rule}

lemma declaration (h : FitsInto limit wide narrow) :
    Fits (fun s => s.need ≤ limit) (declaration wide) (declaration narrow) := by
  intro input s rest hr hneed
  simp only [Grammar.declaration, bind_eq_ok_iff, pure_eq_ok_iff] at hr ⊢
  obtain ⟨b, i₁, hb, rfl, rfl⟩ := hr
  exact ⟨b, _, fits_letBinding h.expression _ _ _ hb hneed, rfl, rfl⟩

lemma conditional (h : FitsInto limit wide narrow) :
    Fits (fun s => s.need ≤ limit) (conditional wide) (conditional narrow) := by
  intro input s rest hr hneed
  simp only [Grammar.conditional, bind_eq_ok_iff, pure_eq_ok_iff] at hr ⊢
  obtain ⟨_, i₁, hif, e, i₂, he, _, i₃, hdo, thenBlock, i₄, hthen, o, i₅, ho, _, i₆, hend, rfl,
    rfl⟩ := hr
  obtain ⟨hneedCondition, hneedBlocks⟩ := Nat.max_le.1 hneed
  obtain ⟨hneedThen, hneedElse⟩ := Nat.max_le.1 hneedBlocks
  have helse : ∀ ss ∈ o, Stmt.needOfBlock ss ≤ limit := by
    intro ss hss
    rwa [Option.mem_def.1 hss] at hneedElse
  exact ⟨_, i₁, hif, e, i₂, h.expression _ _ _ he hneedCondition, _, i₃, hdo, thenBlock, i₄,
    h.block _ _ _ _ hthen hneedThen, o, i₅, (h.block _).introduced "ELSE" _ _ _ ho helse, _, _,
    hend, rfl, rfl⟩

/-- A block between its words fits if the block does. -/
lemma enclosed (h : FitsInto limit wide narrow) :
    Fits (fun ss => Stmt.needOfBlock ss ≤ limit) (enclosed wide) (enclosed narrow) := by
  intro input ss rest hr hneed
  simp only [Grammar.enclosed, bind_eq_ok_iff, pure_eq_ok_iff] at hr ⊢
  obtain ⟨_, i₁, hdo, ss, i₂, hblock, _, i₃, hend, rfl, rfl⟩ := hr
  exact ⟨_, i₁, hdo, ss, i₂, h.block _ _ _ _ hblock hneed, _, _, hend, rfl, rfl⟩

lemma forEach (h : FitsInto limit wide narrow) :
    Fits (fun s => s.need ≤ limit) (forEach wide) (forEach narrow) := by
  intro input s rest hr hneed
  simp only [Grammar.forEach, bind_eq_ok_iff, pure_eq_ok_iff] at hr ⊢
  obtain ⟨_, i₁, hfor, name, i₂, hname, _, i₃, hin, e, i₄, he, body, i₅, hbody, rfl, rfl⟩ := hr
  obtain ⟨hneedValue, hneedBody⟩ := Nat.max_le.1 hneed
  exact ⟨_, i₁, hfor, name, i₂, hname, _, i₃, hin, e, i₄, h.expression _ _ _ he hneedValue, body, _,
    h.enclosed _ _ _ hbody hneedBody, rfl, rfl⟩

lemma whileLoop (h : FitsInto limit wide narrow) :
    Fits (fun s => s.need ≤ limit) (whileLoop wide) (whileLoop narrow) := by
  intro input s rest hr hneed
  simp only [Grammar.whileLoop, bind_eq_ok_iff, pure_eq_ok_iff] at hr ⊢
  obtain ⟨_, i₁, hwhile, e, i₂, he, body, i₃, hbody, rfl, rfl⟩ := hr
  obtain ⟨hneedCondition, hneedBody⟩ := Nat.max_le.1 hneed
  exact ⟨_, i₁, hwhile, e, i₂, h.expression _ _ _ he hneedCondition, body, _,
    h.enclosed _ _ _ hbody hneedBody, rfl, rfl⟩

lemma result (h : FitsInto limit wide narrow) :
    Fits (fun s => s.need ≤ limit) (result wide) (result narrow) := by
  intro input s rest hr hneed
  simp only [Grammar.result, bind_eq_ok_iff, pure_eq_ok_iff] at hr ⊢
  obtain ⟨_, i₁, hreturn, value, i₂, hvalue, _, i₃, hsemicolon, rfl, rfl⟩ := hr
  exact ⟨_, i₁, hreturn, value, i₂,
    h.expression.unlessSeen ";" _ _ _ hvalue (needOfOption_le_iff.1 hneed), _, _, hsemicolon, rfl,
    rfl⟩

lemma evaluation (h : FitsInto limit wide narrow) :
    Fits (fun s => s.need ≤ limit) (evaluation wide) (evaluation narrow) := by
  intro input s rest hr hneed
  simp only [Grammar.evaluation, bind_eq_ok_iff] at hr ⊢
  obtain ⟨receiver, i₁, hreceiver, o, i₂, ho, hr⟩ := hr
  cases o with
  | none =>
    have hr' := hr
    simp only [bind_eq_ok_iff, pure_eq_ok_iff] at hr
    obtain ⟨_, i₃, hsemicolon, rfl, rfl⟩ := hr
    exact ⟨receiver, i₁, h.expression _ _ _ hreceiver hneed, none, i₂,
      h.expression.introduced "=" _ _ _ ho (by simp), hr'⟩
  | some value =>
    have hr' := hr
    simp only [bind_eq_ok_iff, pure_eq_ok_iff] at hr
    obtain ⟨_, i₃, hsemicolon, rfl, rfl⟩ := hr
    obtain ⟨hneedReceiver, hneedValue⟩ := Nat.max_le.1 hneed
    exact ⟨receiver, i₁, h.expression _ _ _ hreceiver hneedReceiver, some value, i₂,
      h.expression.introduced "=" _ _ _ ho (by simpa using hneedValue), hr'⟩

/-- A statement fits if what it contains does. -/
theorem statement (h : FitsInto limit wide narrow) :
    Fits (fun s => s.need ≤ limit) (statement wide) (statement narrow) := by
  intro input s rest hr hneed
  rw [statement_eq] at hr ⊢
  generalize Form.ofToken? input.ahead.head? = form at hr ⊢
  cases form with
  | declaration => exact h.declaration _ _ _ hr hneed
  | conditional => exact h.conditional _ _ _ hr hneed
  | forEach => exact h.forEach _ _ _ hr hneed
  | whileLoop => exact h.whileLoop _ _ _ hr hneed
  | result => exact h.result _ _ _ hr hneed
  | evaluation => exact h.evaluation _ _ _ hr hneed

lemma method (h : FitsInto limit wide narrow) :
    Fits (fun m => m.need ≤ limit) (method wide) (method narrow) := by
  intro input m rest hr hneed
  simp only [Grammar.method, bind_eq_ok_iff, pure_eq_ok_iff] at hr ⊢
  obtain ⟨_, i₁, hdef, name, i₂, hname, _, i₃, hopen, names, i₄, hnames, body, i₅, hbody, rfl,
    rfl⟩ := hr
  exact ⟨_, i₁, hdef, name, i₂, hname, _, i₃, hopen, names, i₄, hnames, body, _,
    h.enclosed _ _ _ hbody hneed, rfl, rfl⟩

lemma program (h : FitsInto limit wide narrow) :
    Fits (fun p => p.need ≤ limit) (program wide) (program narrow) := by
  intro input p rest hr hneed
  simp only [Grammar.program, manyFrom, bind_eq_ok_iff, pure_eq_ok_iff] at hr ⊢
  obtain ⟨fields, i₁, hfields, methods, i₂, hmethods, _, i₃, hend, rfl, rfl⟩ := hr
  obtain ⟨hneedFields, hneedMethods⟩ := Program.need_le_iff.1 hneed
  exact ⟨fields, i₁, (fits_letBinding h.expression).many _ _ _ _ hfields hneedFields, methods, i₂,
    h.method.many _ _ _ _ hmethods hneedMethods, _, _, hend, rfl, rfl⟩

end Grammar.Inner.FitsInto

lemma stmt_largestNeed_le_iff {ss : List Stmt} :
    Stmt.largestNeed ss ≤ limit ↔ ∀ s ∈ ss, s.need ≤ limit := by
  induction ss with
  | nil => simp [Stmt.largestNeed]
  | cons s ss ih => rw [Stmt.largestNeed, Nat.max_le, ih, List.forall_mem_cons]

/-- A block that fits into a limit is read under it as under any other one, by induction on the
limit. -/
lemma fits_block (wide limit : Nat) (terminator : Pattern) :
    Fits (fun ss => Stmt.needOfBlock ss ≤ limit) (block wide terminator)
      (block limit terminator) := by
  induction limit generalizing wide terminator with
  | zero => exact fun _ ss _ _ hneed => absurd hneed (Nat.not_succ_le_zero _)
  | succ limit ih =>
    cases wide with
    | zero => exact fun _ _ _ hr _ => absurd hr (by simp [block, Rule.fail])
    | succ wide =>
      have hinner : Inner.FitsInto limit ⟨expression wide, block wide⟩
          ⟨expression limit, block limit⟩ := ⟨fits_expression wide limit, ih wide⟩
      exact fun input ss rest hr hneed => hinner.statement.many _ input ss rest hr
        (stmt_largestNeed_le_iff.1 (Nat.le_of_succ_le_succ hneed))

lemma fitsInto_innerAt (wide limit : Nat) :
    Inner.FitsInto limit (innerAt wide) (innerAt limit) :=
  ⟨fits_expression wide limit, fits_block wide limit⟩

/-! ## Programs -/

namespace Program

variable {ts : List Token} {p : Program} {wide : Nat}

/-- A program that has been read under some limit is read under every limit that it fits into. -/
lemma ofTokens_eq_ok_of_need_le (h : ofTokens wide ts = .ok p) (hneed : p.need ≤ limit) :
    ofTokens limit ts = .ok p := by
  rw [ofTokens_eq_ok_iff_reads] at h ⊢
  obtain ⟨rest, hr⟩ := h
  exact ⟨rest, (fitsInto_innerAt wide limit).program _ _ _ hr hneed⟩

/-- What has been read under a limit fits into it. -/
lemma need_le_of_ofTokens (h : ofTokens limit ts = .ok p) : p.need ≤ limit := by
  obtain ⟨_, hr⟩ := ofTokens_eq_ok_iff_reads.1 h
  exact (program_sound hr).2

/-- Below the need, reading cannot end otherwise than at the limit: another end would be the end of
the run under the larger limit too. -/
lemma ofTokens_eq_error_of_lt_need (h : ofTokens wide ts = .ok p) (hlt : limit < p.need) :
    ∃ fault, ofTokens limit ts = .error fault ∧ fault.cause = .recursionLimit := by
  have hle : limit ≤ wide := Nat.le_of_lt (Nat.lt_of_lt_of_le hlt (need_le_of_ofTokens h))
  have hcouples := (Coupling.couplesInner_innerAt (Coupling.admits_ofLimits hle)).program
  by_contra hother
  have hcause : ∀ fault rest, program (innerAt limit) (TokenInput.ofList ts) = .error fault rest →
      fault.cause ≠ .recursionLimit := fun fault rest hr hcause =>
    hother ⟨fault, by rw [ofTokens, hr], hcause⟩
  have hsame : ofTokens wide ts = ofTokens limit ts := by
    rw [ofTokens, hcouples.eq_of_ofLimits hcause, ofTokens]
  exact absurd (need_le_of_ofTokens (hsame.symm.trans h)) (Nat.not_le_of_lt hlt)

end Program

/-- The limit is a threshold.  A construct that is read, or refused for another reason than the
limit, is read or refused in the same way and up to the same place under every larger limit.  And
tokens that are a program under some limit are this program under the limits from its need on, and
end at the limit under all others. -/
theorem limit_isThreshold :
    (∀ (construct : Construct) (limit limit' : Nat) (input : TokenInput), limit ≤ limit' →
      (∀ fault rest, construct.rule limit input = .error fault rest →
        fault.cause ≠ .recursionLimit) →
      construct.rule limit' input = construct.rule limit input) ∧
    ∀ (ts : List Token) (wide : Nat) (p : Program), Program.ofTokens wide ts = .ok p →
      ∀ limit, (Program.ofTokens limit ts = .ok p ↔ p.need ≤ limit) ∧
        (limit < p.need →
          ∃ fault, Program.ofTokens limit ts = .error fault ∧ fault.cause = .recursionLimit) := by
  refine ⟨fun construct limit limit' input hle => Construct.rule_of_le hle construct input,
    fun ts wide p hp limit => ⟨⟨Program.need_le_of_ofTokens, ?_⟩, ?_⟩⟩
  · exact Program.ofTokens_eq_ok_of_need_le hp
  · exact Program.ofTokens_eq_error_of_lt_need hp

/-- Two nested groups after a call in a method: four units are needed, and three end at the limit.
The statement `a b` is refused under two units as under nine, because of the missing semicolon. -/
theorem limit_isThreshold_groups :
    (∃ ts p, tokenize "DEF f() DO g((1)); END" = .ok ts ∧ Program.ofTokens 64 ts = .ok p ∧
      p.need = 4 ∧ Program.ofTokens 4 ts = .ok p ∧
      ∃ fault, Program.ofTokens 3 ts = .error fault ∧ fault.cause = .recursionLimit) ∧
    ∃ ts, tokenize "a b" = .ok ts ∧
      Construct.statement.rule 9 (.ofList ts) = Construct.statement.rule 2 (.ofList ts) := by
  have hnested : tokenize "DEF f() DO g((1)); END" =
      .ok [⟨.identifier, "DEF", 0⟩, ⟨.identifier, "f", 4⟩, ⟨.operator, "(", 5⟩,
        ⟨.operator, ")", 6⟩, ⟨.identifier, "DO", 8⟩, ⟨.identifier, "g", 11⟩,
        ⟨.operator, "(", 12⟩, ⟨.operator, "(", 13⟩, ⟨.integer, "1", 14⟩, ⟨.operator, ")", 15⟩,
        ⟨.operator, ")", 16⟩, ⟨.operator, ";", 17⟩, ⟨.identifier, "END", 19⟩] := by cbv
  have hnames : tokenize "a b" = .ok [⟨.identifier, "a", 0⟩, ⟨.identifier, "b", 2⟩] := by cbv
  refine ⟨?_, _, hnames, limit_isThreshold.1 .statement 2 9 _ (by decide) ?_⟩
  · have hread : ∀ ts, tokenize "DEF f() DO g((1)); END" = .ok ts → Program.ofTokens 64 ts =
        .ok ⟨[], [⟨"f", [], [.expression (.call "g" [.group (.literal (.integer 1))])]⟩]⟩ := by
      intro ts hts
      obtain rfl := Except.ok.inj (hnested.symm.trans hts)
      cbv
    have hthreshold := limit_isThreshold.2 _ 64 _ (hread _ hnested)
    exact ⟨_, _, hnested, hread _ hnested, by decide, (hthreshold 4).1.2 (by decide),
      (hthreshold 3).2 (by decide)⟩
  · intro fault rest hr
    have hsemicolon : Construct.statement.rule 2
        (.ofList [⟨.identifier, "a", 0⟩, ⟨.identifier, "b", 2⟩]) =
          .error ⟨.missingSemicolon, 2⟩ ⟨[⟨.identifier, "b", 2⟩], 3⟩ := by cbv
    rw [hsemicolon] at hr
    obtain ⟨rfl, -⟩ := EStateM.Result.error.inj hr
    simp

end LetDef
