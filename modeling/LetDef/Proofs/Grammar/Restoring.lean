import LetDef.Proofs.Grammar.Counter
import LetDef.Proofs.Grammar.Parallel

/-!
# The counter is restored

A counted rule follows a rule of the grammar at a limit (`Counted.Follows`) if, started with that
limit in the counter, it comes to the same end and leaves the same limit behind.  A limit that is
handed on as an argument and one that is kept in a counter then cannot be told apart.

The unit that `guarded` takes is missing while the body runs, so what the body follows is the rule
at a smaller limit (`Follows.guarded`).  That is the only place where the limit changes; all other
rules are put together from rules that follow at one and the same limit.  A recursive rule that
follows at a limit enters itself at most that often, whence the bound in `expressionWithin` is never
reached, and the rules satisfy the equations that one would write them down with
(`expression_eq`, `block_eq`).
-/

namespace LetDef.Counted

variable {α β : Type} {n : Nat}

/-- The end of a rule, with the limit beside it. -/
def atLimit (n : Nat) : EStateM.Result Fault TokenInput α → EStateM.Result Halt Parse α
  | .ok a input => .ok a ⟨input, n⟩
  | .error fault input => .error (.fault fault) ⟨input, n⟩

/-- The counted rule does at the limit what the other rule does, and leaves the limit as it was. -/
def Follows (n : Nat) (g : Counted α) (r : Rule α) : Prop :=
  ∀ input, g ⟨input, n⟩ = atLimit n (r input)

/-! ## Sequencing and repetition -/

/-- A rule that only answers changes no limit. -/
lemma follows_pure (a : α) : Follows n (pure a) (pure a) :=
  fun _ => rfl

/-- A rule without expressions and blocks does not know of the limit. -/
lemma follows_lift (r : Rule α) : Follows n (liftM r) r := by
  intro input
  show lift r ⟨input, n⟩ = _
  unfold lift
  cases r input <;> rfl

/-- The second part starts with the limit that the first one has left, which is the same one. -/
lemma Follows.bind {g : Counted α} {r : Rule α} {f : α → Counted β} {s : α → Rule β}
    (h : Follows n g r) (hf : ∀ a, Follows n (f a) (s a)) : Follows n (g >>= f) (r >>= s) := by
  intro input
  show EStateM.bind g f ⟨input, n⟩ = atLimit n (EStateM.bind r s input)
  rw [EStateM.bind, EStateM.bind, h input]
  cases r input with
  | ok a rest => exact hf a rest
  | error fault rest => rfl

lemma Follows.map {g : Counted α} {r : Rule α} (h : Follows n g r) (f : α → β) :
    Follows n (f <$> g) (f <$> r) := by
  intro input
  show EStateM.map f g ⟨input, n⟩ = atLimit n (EStateM.map f r input)
  rw [EStateM.map, EStateM.map, h input]
  cases r input <;> rfl

/-- The rounds of a repetition follow each other at one limit. -/
lemma Follows.many {item : Counted α} {item' : Rule α} (h : Follows n item item')
    (continues : Token → Bool) :
    Follows n (Rule.many continues item) (Rule.many continues item') := by
  intro input
  show Rule.repeatWhile Parse.input continues item ⟨input, n⟩ =
    atLimit n (Rule.repeatWhile (fun input => input) continues item' input)
  induction hlength : input.ahead.length using Nat.strongRecOn generalizing input with
  | ind k ih =>
    rw [Rule.repeatWhile, Rule.repeatWhile]
    split
    case isFalse => rfl
    case isTrue =>
      rw [h input]
      cases item' input with
      | error fault rest => rfl
      | ok a rest =>
        by_cases hshorter : rest.ahead.length < input.ahead.length
        · have hrest := ih _ (hlength ▸ hshorter) rest rfl
          simp only [atLimit, if_pos hshorter, hrest]
          cases Rule.repeatWhile (fun input => input) continues item' rest <;> rfl
        · simp only [atLimit, if_neg hshorter]

/-! ## The guard -/

/-- With a unit to take, the guard restores the limit. -/
lemma Follows.guarded {body : Counted α} {r : Rule α} (h : Follows n body r)
    (hn : n + 1 ≤ maxCount) : Follows (n + 1) (guarded body) r := by
  have hleave : ∀ rest, leave ⟨rest, n⟩ = .ok () ⟨rest, n + 1⟩ := fun _ => if_pos hn
  intro input
  show EStateM.map Prod.fst (tryFinally' body fun _ => leave) ⟨input, n⟩ = _
  simp only [EStateM.map, tryFinally', h input]
  cases r input with
  | ok a rest => simp only [atLimit, hleave]
  | error fault rest => simp only [atLimit, hleave]

/-- Without one, it fails and takes nothing. -/
lemma follows_guarded_zero (body : Counted α) :
    Follows 0 (guarded body) (Rule.fail .recursionLimit) :=
  fun _ => rfl

/-! ## Choices by the token ahead -/

/-- A choice by the token ahead is the same choice with a counter. -/
lemma Follows.introduced {item : Counted α} {item' : Rule α} (h : Follows n item item')
    (text : String) : Follows n (Rule.introduced text item) (Rule.introduced text item') := by
  refine (follows_lift (Rule.found text)).bind fun b => ?_
  cases b with
  | false => exact follows_pure none
  | true => exact h.bind fun a => follows_pure (some a)

lemma Follows.unlessSeen {item : Counted α} {item' : Rule α} (h : Follows n item item')
    (text : String) : Follows n (Rule.unlessSeen text item) (Rule.unlessSeen text item') := by
  refine (follows_lift (Rule.sees text)).bind fun b => ?_
  cases b with
  | false => exact h.bind fun a => follows_pure (some a)
  | true => exact follows_pure none

/-- Lists follow if their items do. -/
lemma Follows.parenthesized {item : Counted α} {item' : Rule α} (h : Follows n item item') :
    Follows n (Rule.parenthesized item) (Rule.parenthesized item') := by
  have hfurther : Follows n (Rule.further item) (Rule.further item') := by
    refine (follows_lift _).bind fun _ => (follows_lift (Rule.sees ")")).bind fun b => ?_
    cases b with
    | false => exact h
    | true => exact follows_lift _
  have hlist : Follows n (Rule.commaSeparated item) (Rule.commaSeparated item') :=
    h.bind fun a => (hfurther.many _).bind fun as => follows_pure (a :: as)
  refine (follows_lift (Rule.found ")")).bind fun b => ?_
  cases b with
  | false => exact hlist.bind fun as => (follows_lift _).bind fun _ => follows_pure as
  | true => exact follows_pure []

/-! ## Expressions -/

/-- Nested expressions are handed on to at the limit of the whole. -/
lemma Follows.primary {nested : Counted Expr} {nested' : Rule Expr} (h : Follows n nested nested') :
    Follows n (Grammar.primary nested) (Grammar.primary nested') := by
  refine (follows_lift Rule.peek).bind fun o => ?_
  cases o with
  | none => exact follows_lift _
  | some token =>
    simp only
    cases Grammar.Opening.ofToken token with
    | literal value => exact (follows_lift _).bind fun _ => follows_pure _
    | malformed => exact (follows_lift _).bind fun _ => follows_lift _
    | group =>
      exact (follows_lift _).bind fun _ => h.bind fun _ => (follows_lift _).bind fun _ =>
        follows_pure _
    | name =>
      refine (follows_lift _).bind fun _ => (h.parenthesized.introduced "(").bind fun o => ?_
      cases o with
      | none => exact follows_pure _
      | some es => exact follows_pure _
    | nothing => exact follows_lift _

lemma Follows.secondary {nested : Counted Expr} {nested' : Rule Expr}
    (h : Follows n nested nested') :
    Follows n (Grammar.secondary nested) (Grammar.secondary nested') := by
  have hselection : Follows n (Grammar.selection nested) (Grammar.selection nested') := by
    refine (follows_lift _).bind fun _ => (follows_lift _).bind fun t =>
      (h.parenthesized.introduced "(").bind fun o => ?_
    cases o with
    | none => exact follows_pure _
    | some es => exact follows_pure _
  exact h.primary.bind fun _ => (hselection.many _).bind fun _ => follows_pure _

/-- Operators and operands follow each other at one limit. -/
lemma Follows.leftNested {operand : Counted Expr} {operand' : Rule Expr}
    (h : Follows n operand operand') (operators : List String) :
    Follows n (Grammar.leftNested operators operand) (Grammar.leftNested operators operand') := by
  have hoperation : Follows n (Grammar.operation operand) (Grammar.operation operand') :=
    (follows_lift _).bind fun _ => h.bind fun _ => follows_pure _
  exact h.bind fun _ => (hoperation.many _).bind fun _ => follows_pure _

lemma Follows.multiplicative {nested : Counted Expr} {nested' : Rule Expr}
    (h : Follows n nested nested') :
    Follows n (Grammar.multiplicative nested) (Grammar.multiplicative nested') :=
  h.secondary.leftNested _

lemma Follows.additive {nested : Counted Expr} {nested' : Rule Expr}
    (h : Follows n nested nested') :
    Follows n (Grammar.additive nested) (Grammar.additive nested') :=
  h.multiplicative.leftNested _

lemma Follows.equality {nested : Counted Expr} {nested' : Rule Expr}
    (h : Follows n nested nested') :
    Follows n (Grammar.equality nested) (Grammar.equality nested') :=
  h.additive.leftNested _

lemma Follows.logical {nested : Counted Expr} {nested' : Rule Expr}
    (h : Follows n nested nested') : Follows n (Grammar.logical nested) (Grammar.logical nested') :=
  h.equality.leftNested _

/-- An expression that may be entered more often than there are units left never runs out of depth.
The induction is on the depth, and the guard makes both numbers smaller. -/
lemma follows_expressionWithin {depth : Nat} (hdepth : n < depth) (hn : n ≤ maxCount) :
    Follows n (expressionWithin depth) (Grammar.expression n) := by
  induction depth generalizing n with
  | zero => exact absurd hdepth (Nat.not_lt_zero n)
  | succ depth ih =>
    cases n with
    | zero => exact follows_guarded_zero _
    | succ n =>
      have hnested := ih (Nat.lt_of_succ_lt_succ hdepth) (Nat.le_of_succ_le hn)
      exact hnested.logical.guarded hn

/-- An expression follows at every limit that the counter has room for. -/
theorem follows_expression (hn : n ≤ maxCount) : Follows n expression (Grammar.expression n) := by
  intro input
  show expressionWithin (n + 1) ⟨input, n⟩ = _
  exact follows_expressionWithin (Nat.lt_succ_self n) hn input

/-! ## Statements, methods and programs -/

/-- The rules for what statements contain follow at the limit. -/
structure FollowsInner (n : Nat) (inner : Grammar.Inner Counted) (inner' : Grammar.Inner Rule) :
    Prop where
  expression : Follows n inner.expression inner'.expression
  block : ∀ terminator, Follows n (inner.block terminator) (inner'.block terminator)

/-- A binding follows if its value does. -/
lemma Follows.letBinding {nested : Counted Expr} {nested' : Rule Expr}
    (h : Follows n nested nested') :
    Follows n (Grammar.letBinding nested) (Grammar.letBinding nested') := by
  have hbinding : Follows n (Grammar.binding nested) (Grammar.binding nested') :=
    (follows_lift _).bind fun _ => ((follows_lift _).introduced ":").bind fun _ =>
      (h.introduced "=").bind fun _ => follows_pure _
  exact (follows_lift _).bind fun _ => hbinding.bind fun _ => (follows_lift _).bind fun _ =>
    follows_pure _

namespace FollowsInner

variable {inner : Grammar.Inner Counted} {inner' : Grammar.Inner Rule}

lemma declaration (h : FollowsInner n inner inner') :
    Follows n (Grammar.declaration inner) (Grammar.declaration inner') :=
  h.expression.letBinding.bind fun _ => follows_pure _

lemma conditional (h : FollowsInner n inner inner') :
    Follows n (Grammar.conditional inner) (Grammar.conditional inner') :=
  (follows_lift _).bind fun _ => h.expression.bind fun _ => (follows_lift _).bind fun _ =>
    (h.block _).bind fun _ => ((h.block _).introduced "ELSE").bind fun _ =>
      (follows_lift _).bind fun _ => follows_pure _

lemma enclosed (h : FollowsInner n inner inner') :
    Follows n (Grammar.enclosed inner) (Grammar.enclosed inner') :=
  (follows_lift _).bind fun _ => (h.block _).bind fun _ => (follows_lift _).bind fun _ =>
    follows_pure _

lemma forEach (h : FollowsInner n inner inner') :
    Follows n (Grammar.forEach inner) (Grammar.forEach inner') :=
  (follows_lift _).bind fun _ => (follows_lift _).bind fun _ => (follows_lift _).bind fun _ =>
    h.expression.bind fun _ => h.enclosed.bind fun _ => follows_pure _

lemma whileLoop (h : FollowsInner n inner inner') :
    Follows n (Grammar.whileLoop inner) (Grammar.whileLoop inner') :=
  (follows_lift _).bind fun _ => h.expression.bind fun _ => h.enclosed.bind fun _ => follows_pure _

lemma result (h : FollowsInner n inner inner') :
    Follows n (Grammar.result inner) (Grammar.result inner') :=
  (follows_lift _).bind fun _ => (h.expression.unlessSeen ";").bind fun _ =>
    (follows_lift _).bind fun _ => follows_pure _

lemma evaluation (h : FollowsInner n inner inner') :
    Follows n (Grammar.evaluation inner) (Grammar.evaluation inner') := by
  refine h.expression.bind fun _ => (h.expression.introduced "=").bind fun o => ?_
  cases o with
  | none => exact (follows_lift _).bind fun _ => follows_pure _
  | some _ => exact (follows_lift _).bind fun _ => follows_pure _

/-- A statement of any form follows. -/
lemma statement (h : FollowsInner n inner inner') :
    Follows n (Grammar.statement inner) (Grammar.statement inner') := by
  refine (follows_lift Rule.peek).bind fun o => ?_
  cases Grammar.Form.ofToken? o with
  | declaration => exact h.declaration
  | conditional => exact h.conditional
  | forEach => exact h.forEach
  | whileLoop => exact h.whileLoop
  | result => exact h.result
  | evaluation => exact h.evaluation

lemma statements (h : FollowsInner n inner inner') (terminator : Pattern) :
    Follows n (Grammar.statements inner terminator) (Grammar.statements inner' terminator) :=
  h.statement.many _

lemma method (h : FollowsInner n inner inner') :
    Follows n (Grammar.method inner) (Grammar.method inner') :=
  (follows_lift _).bind fun _ => (follows_lift _).bind fun _ => (follows_lift _).bind fun _ =>
    (follows_lift _).parenthesized.bind fun _ => h.enclosed.bind fun _ => follows_pure _

lemma program (h : FollowsInner n inner inner') :
    Follows n (Grammar.program inner) (Grammar.program inner') :=
  (h.expression.letBinding.many _).bind fun _ => (h.method.many _).bind fun _ =>
    (follows_lift _).bind fun _ => follows_pure _

end FollowsInner

/-- Blocks run out of depth as little as expressions do; these follow at any limit by now. -/
lemma follows_blockWithin {depth : Nat} (hdepth : n < depth) (hn : n ≤ maxCount)
    (terminator : Pattern) :
    Follows n (blockWithin depth terminator) (Grammar.block n terminator) := by
  induction depth generalizing n terminator with
  | zero => exact absurd hdepth (Nat.not_lt_zero n)
  | succ depth ih =>
    cases n with
    | zero => exact follows_guarded_zero _
    | succ n =>
      have hle : n ≤ maxCount := Nat.le_of_succ_le hn
      have hinner : FollowsInner n ⟨expression, blockWithin depth⟩
          ⟨Grammar.expression n, Grammar.block n⟩ :=
        ⟨follows_expression hle, ih (Nat.lt_of_succ_lt_succ hdepth) hle⟩
      exact (hinner.statements terminator).guarded hn

/-- A block follows at every limit that the counter has room for. -/
theorem follows_block (hn : n ≤ maxCount) (terminator : Pattern) :
    Follows n (block terminator) (Grammar.block n terminator) := by
  intro input
  show blockWithin (n + 1) terminator ⟨input, n⟩ = _
  exact follows_blockWithin (Nat.lt_succ_self n) hn terminator input

/-- All that a statement contains follows. -/
lemma followsInner (hn : n ≤ maxCount) : FollowsInner n inner (Grammar.innerAt n) :=
  ⟨follows_expression hn, follows_block hn⟩

/-! ## The equations of the recursive rules -/

/-- Rules that follow the same rule at every limit agree. -/
lemma eq_of_follows {g g' : Counted α} {r : Nat → Rule α} (h : ∀ n ≤ maxCount, Follows n g (r n))
    (h' : ∀ n ≤ maxCount, Follows n g' (r n)) {p : Parse} (hp : p.limit ≤ maxCount) :
    g p = g' p :=
  (h p.limit hp p.input).trans (h' p.limit hp p.input).symm

/-- An expression takes one unit, and the expressions in it are read by the same rule. -/
theorem expression_eq {p : Parse} (hp : p.limit ≤ maxCount) :
    expression p = guarded (Grammar.logical expression) p := by
  refine eq_of_follows (fun n => follows_expression) (fun n hn => ?_) hp
  cases n with
  | zero => exact follows_guarded_zero _
  | succ n => exact (follows_expression (Nat.le_of_succ_le hn)).logical.guarded hn

/-- A block takes one unit, and what its statements contain is read by the same rules. -/
theorem block_eq {p : Parse} (hp : p.limit ≤ maxCount) (terminator : Pattern) :
    block terminator p = guarded (Grammar.statements inner terminator) p := by
  refine eq_of_follows (fun n hn => follows_block hn terminator) (fun n hn => ?_) hp
  cases n with
  | zero => exact follows_guarded_zero _
  | succ n => exact ((followsInner (Nat.le_of_succ_le hn)).statements terminator).guarded hn

/-! ## Constructs -/

/-- Every construct is read as it is without a counter, and the counter is as it was before. -/
theorem follows_rule (hn : n ≤ maxCount) (construct : Construct) :
    Follows n (rule construct) (construct.rule n) := by
  have hexpression := follows_expression hn
  have hinner := followsInner hn
  cases construct with
  | program => exact hinner.program.map _
  | field => exact hexpression.letBinding.map _
  | method => exact hinner.method.map _
  | statement => exact hinner.statement.map _
  | declaration => exact hinner.declaration.map _
  | conditional => exact hinner.conditional.map _
  | forEach => exact hinner.forEach.map _
  | whileLoop => exact hinner.whileLoop.map _
  | result => exact hinner.result.map _
  | expression => exact hexpression.map _
  | logical => exact hexpression.logical.map _
  | equality => exact hexpression.equality.map _
  | additive => exact hexpression.additive.map _
  | multiplicative => exact hexpression.multiplicative.map _
  | secondary => exact hexpression.secondary.map _
  | primary => exact hexpression.primary.map _

end LetDef.Counted
