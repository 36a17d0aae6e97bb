import LetDef.Proofs.Grammar.TruthfulFault

/-!
# Every rule makes progress

A repetition ends when the token ahead does not ask for another round, and an expression in an
expression is read by the same rules again.  Neither can go on without end, and not because of the
limit: each round and each descent into parentheses, arguments or a block comes after a token that
has been read.  Six rules are entered on the way down to a primary expression without one, though,
and a statement or an expression may start with such a descent, so that the tokens alone do not
count the steps.

The steps are counted here as one keeps accounts.  `Rule.Runs` tells how a rule comes to its result,
step by step; a round that has read nothing has no place in it.  Every token that is read pays for
ten steps, and `Rule.Affords x r y` says that `r`, started with `x` steps in hand, can pay for its
run and has `y` in hand if it succeeds.  Such accounts are added up along the rules of the grammar.
Where `x < y`, a token has been read: this holds for every round, which lets repetitions go on
(`Rule.Affords.many`), and for every construct but a whole program.  The limit does not occur in the
accounts, so the number of steps that `rules_makeProgress` gives does not depend on it.
-/

namespace LetDef

open Grammar

/-! ## Steps -/

namespace Rule

/-- The rules that take a single step. -/
inductive Single : {α : Type} → Rule α → Prop where
  | peek : Single peek
  | skip : Single skip
  | next : Single next
  | optional (pattern : Pattern) : Single (optional pattern)
  | sees (text : String) : Single (sees text)
  | fail {α : Type} (cause : Cause) : Single (fail cause : Rule α)
  | failAt {α : Type} (cause : Cause) (offset : Nat) : Single (failAt cause offset : Rule α)

/-- The rule, started with the input, comes to the result in so many steps.  Looking whether there
is another round is a step, and so is asking the limit for another level. -/
inductive Runs : {α : Type} → Rule α → TokenInput → EStateM.Result Fault TokenInput α → Nat →
    Prop where
  | pure {α : Type} (a : α) (input : TokenInput) : Runs (pure a) input (.ok a input) 0
  | single {α : Type} {r : Rule α} : Single r → ∀ input, Runs r input (r input) 1
  | bind {α β : Type} {r : Rule α} {f : α → Rule β} {input mid : TokenInput} {a : α}
      {res : EStateM.Result Fault TokenInput β} {m n : Nat} :
      Runs r input (.ok a mid) m → Runs (f a) mid res n → Runs (r >>= f) input res (m + n)
  | bindFault {α β : Type} {r : Rule α} {f : α → Rule β} {input rest : TokenInput} {fault : Fault}
      {n : Nat} : Runs r input (.error fault rest) n → Runs (r >>= f) input (.error fault rest) n
  /-- The token ahead does not ask for another round. -/
  | stop {α : Type} {continues : Token → Bool} {item : Rule α} {input : TokenInput} :
      ¬ input.ahead.head?.any continues → Runs (many continues item) input (.ok [] input) 1
  /-- A round that succeeds reads a token, and then the repetition goes on. -/
  | round {α : Type} {continues : Token → Bool} {item : Rule α} {input mid : TokenInput} {a : α}
      {res : EStateM.Result Fault TokenInput (List α)} {m n : Nat} :
      input.ahead.head?.any continues → Runs item input (.ok a mid) m →
      mid.ahead.length < input.ahead.length →
      Runs (many continues item >>= fun as => Pure.pure (a :: as)) mid res n →
      Runs (many continues item) input res (m + n + 1)
  | roundFault {α : Type} {continues : Token → Bool} {item : Rule α} {input rest : TokenInput}
      {fault : Fault} {n : Nat} :
      input.ahead.head?.any continues → Runs item input (.error fault rest) n →
      Runs (many continues item) input (.error fault rest) (n + 1)
  | expression {limit : Nat} {input : TokenInput} {res : EStateM.Result Fault TokenInput Expr}
      {n : Nat} : Runs (logical (Grammar.expression limit)) input res n →
      Runs (Grammar.expression (limit + 1)) input res (n + 1)
  | expressionTooDeep {input : TokenInput} {res : EStateM.Result Fault TokenInput Expr} {n : Nat} :
      Runs (Rule.fail .recursionLimit) input res n → Runs (Grammar.expression 0) input res (n + 1)
  | block {limit : Nat} {terminator : Pattern} {input : TokenInput}
      {res : EStateM.Result Fault TokenInput (List Stmt)} {n : Nat} :
      Runs (statements (innerAt limit) terminator) input res n →
      Runs (Grammar.block (limit + 1) terminator) input res (n + 1)
  | blockTooDeep {terminator : Pattern} {input : TokenInput}
      {res : EStateM.Result Fault TokenInput (List Stmt)} {n : Nat} :
      Runs (Rule.fail .recursionLimit) input res n →
      Runs (Grammar.block 0 terminator) input res (n + 1)

/-- A run comes to the result that the rule has. -/
theorem Runs.eq {α : Type} {r : Rule α} {input : TokenInput}
    {res : EStateM.Result Fault TokenInput α} {n : Nat} (h : Runs r input res n) :
    r input = res := by
  induction h with
  | pure a input => rfl
  | single _ input => rfl
  | bind _ _ ih ih' => rw [bind_of_ok ih, ih']
  | bindFault _ ih => rw [bind_of_error ih]
  | stop h => exact many_eq_of_not _ h
  | round hhead _ hshorter _ ih ih' =>
    rw [many_eq_bind hhead, bind_of_ok ih, furtherRounds, if_pos hshorter, ih']
  | roundFault hhead _ ih => rw [many_eq_bind hhead, bind_of_error ih]
  | expression _ ih => exact ih
  | expressionTooDeep _ ih => exact ih
  | block _ ih => exact ih
  | blockTooDeep _ ih => exact ih

variable {α β : Type}

/-- What is left where a rule has come to its result, whether it has succeeded or not. -/
def remaining : EStateM.Result Fault TokenInput α → TokenInput
  | .ok _ rest | .error _ rest => rest

/-! ## Accounts -/

/-- What is in hand where a rule has come to its result; where it has failed, no more is needed. -/
def inHand (y : α → Nat) : EStateM.Result Fault TokenInput α → Nat
  | .ok a _ => y a
  | .error _ _ => 0

/-- On the input, the rule has a run that can be paid for with `x` steps in hand and ten more for
each token that is read, and if it succeeds with `a`, then `y a` are in hand. -/
def AffordsOn (input : TokenInput) (x : Nat) (r : Rule α) (y : α → Nat) : Prop :=
  ∃ steps, Runs r input (r input) steps ∧
    steps + 10 * (remaining (r input)).ahead.length + inHand y (r input) ≤
      x + 10 * input.ahead.length

/-- The rule affords its run wherever the token ahead is `o`. -/
def AffordsAt (o : Option Token) (x : Nat) (r : Rule α) (y : α → Nat) : Prop :=
  ∀ input, input.ahead.head? = o → AffordsOn input x r y

/-- The rule affords its run on every input. -/
def Affords (x : Nat) (r : Rule α) (y : α → Nat) : Prop := ∀ input, AffordsOn input x r y

variable {input : TokenInput} {o : Option Token} {x x' : Nat} {r : Rule α} {f : α → Rule β}
  {y y' : α → Nat} {z : β → Nat}

namespace AffordsOn

/-- More to start with is enough as well, and leaves as much more. -/
lemma mono (h : AffordsOn input x r y) (hx : x ≤ x') (hy : ∀ a, y' a + x ≤ y a + x') :
    AffordsOn input x' r y' := by
  obtain ⟨steps, hruns, hpaid⟩ := h
  have hin : inHand y' (r input) + x ≤ inHand y (r input) + x' := by
    cases r input with
    | ok a rest => exact hy a
    | error fault rest => exact Nat.add_le_add_left hx 0
  exact ⟨steps, hruns, by omega⟩

/-- What the first rule leaves is what the second one starts with. -/
lemma bind (h : AffordsOn input x r y) (hf : ∀ a, Affords (y a) (f a) z) :
    AffordsOn input x (r >>= f) z := by
  obtain ⟨m, hruns, hpaid⟩ := h
  cases hr : r input with
  | ok a mid =>
    rw [hr] at hruns hpaid
    simp only [remaining, inHand] at hpaid
    obtain ⟨n, hruns', hpaid'⟩ := hf a mid
    rw [AffordsOn, bind_of_ok hr]
    exact ⟨m + n, .bind hruns hruns', by omega⟩
  | error fault rest =>
    rw [hr] at hruns hpaid
    rw [AffordsOn, bind_of_error hr]
    exact ⟨m, .bindFault hruns, hpaid⟩

/-- What leaves more in hand than it needs has read a token. -/
lemma shorter (h : AffordsOn input x r fun _ => x + 1) {rest : TokenInput} {a : α}
    (hr : r input = .ok a rest) : rest.ahead.length < input.ahead.length := by
  obtain ⟨steps, -, hpaid⟩ := h
  rw [hr] at hpaid
  simp only [remaining, inHand] at hpaid
  omega

end AffordsOn

lemma AffordsAt.bind (h : AffordsAt o x r y) (hf : ∀ a, Affords (y a) (f a) z) :
    AffordsAt o x (r >>= f) z :=
  fun input ho => (h input ho).bind hf

namespace Affords

lemma ahead (h : Affords x r y) : AffordsAt o x r y :=
  fun input _ => h input

lemma mono (h : Affords x r y) (hx : x ≤ x') (hy : ∀ a, y' a + x ≤ y a + x') :
    Affords x' r y' :=
  fun input => (h input).mono hx hy

lemma bind (h : Affords x r y) (hf : ∀ a, Affords (y a) (f a) z) : Affords x (r >>= f) z :=
  fun input => (h input).bind hf

/-- A rule that asks for one unit of the limit and is this rule otherwise. -/
lemma enter {r' : Rule α} (h : Affords x r y) (heq : ∀ input, r' input = r input)
    (hruns : ∀ {input res n}, Runs r input res n → Runs r' input res (n + 1)) :
    Affords (x + 1) r' y := by
  intro input
  obtain ⟨n, hn, hpaid⟩ := h input
  rw [AffordsOn, heq]
  exact ⟨n + 1, hruns hn, by omega⟩

lemma pure {a : α} (h : y a ≤ x) : Affords x (Pure.pure a) y := by
  intro input
  refine ⟨0, .pure a input, ?_⟩
  show 0 + 10 * input.ahead.length + y a ≤ x + 10 * input.ahead.length
  omega

lemma map (h : Affords x r fun _ => x') (f : α → β) : Affords x (f <$> r) fun _ => x' := by
  rw [map_eq_bind]
  exact h.bind fun _ => .pure le_rfl

lemma fail {cause : Cause} (h : 1 ≤ x) : Affords x (Rule.fail cause) y := by
  intro input
  refine ⟨1, .single (.fail cause) input, ?_⟩
  show 1 + 10 * input.ahead.length ≤ x + 10 * input.ahead.length
  omega

lemma failAt {cause : Cause} {offset : Nat} (h : 1 ≤ x) :
    Affords x (Rule.failAt cause offset) y := by
  intro input
  refine ⟨1, .single (.failAt cause offset) input, ?_⟩
  show 1 + 10 * input.ahead.length ≤ x + 10 * input.ahead.length
  omega

/-- What is in hand and not needed is in hand afterwards. -/
lemma add (h : Affords x r y) (k : Nat) : Affords (k + x) r fun a => k + y a :=
  h.mono (Nat.le_add_left x k) fun a => by omega

end Affords

/-! ### Single tokens -/

section Tokens

variable {t : Token}

/-- A token that is taken away pays for ten steps, of which the step itself is one. -/
lemma affordsAt_skip : AffordsAt (some t) x skip fun _ => x + 9 := by
  rintro ⟨ahead, stop⟩ ho
  obtain ⟨rest, rfl⟩ : ∃ rest, ahead = t :: rest := List.head?_eq_some_iff.1 ho
  refine ⟨1, .single .skip _, ?_⟩
  show 1 + 10 * rest.length + (x + 9) ≤ x + 10 * (rest.length + 1)
  omega

lemma affordsAt_next : AffordsAt (some t) x next fun _ => x + 9 := by
  rintro ⟨ahead, stop⟩ ho
  obtain ⟨rest, rfl⟩ : ∃ rest, ahead = t :: rest := List.head?_eq_some_iff.1 ho
  refine ⟨1, .single .next _, ?_⟩
  show 1 + 10 * rest.length + (x + 9) ≤ x + 10 * (rest.length + 1)
  omega

/-- A look costs one step, and what follows it may rely on the token that was seen. -/
lemma affords_peek_bind {f : Option Token → Rule β} (h : ∀ o, AffordsAt o x (f o) z) :
    Affords (x + 1) (peek >>= f) z := by
  intro input
  obtain ⟨steps, hruns, hpaid⟩ := h input.ahead.head? input rfl
  have hpeek : peek input = .ok input.ahead.head? input := rfl
  rw [AffordsOn, bind_of_ok hpeek]
  exact ⟨1 + steps, .bind (hpeek ▸ .single .peek input) hruns, by omega⟩

lemma affords_sees (text : String) : Affords (x + 1) (sees text) fun _ => x := by
  intro input
  refine ⟨1, .single (.sees text) input, ?_⟩
  show 1 + 10 * input.ahead.length + x ≤ x + 1 + 10 * input.ahead.length
  omega

/-- An optional token pays if it was there. -/
lemma affords_optional (pattern : Pattern) :
    Affords (x + 1) (optional pattern) fun o => o.elim x fun _ => x + 10 := by
  rintro ⟨_ | ⟨t, rest⟩, stop⟩
  · refine ⟨1, .single (.optional pattern) _, ?_⟩
    show 1 + 10 * 0 + x ≤ x + 1 + 10 * 0
    omega
  · refine ⟨1, .single (.optional pattern) _, ?_⟩
    simp only [optional]
    split
    · show 1 + 10 * rest.length + (x + 10) ≤ x + 1 + 10 * (rest.length + 1)
      omega
    · show 1 + 10 * (rest.length + 1) + x ≤ x + 1 + 10 * (rest.length + 1)
      omega

/-- A token that is expected pays, or the rule fails. -/
lemma affords_expect (pattern : Pattern) (cause : Cause) :
    Affords (x + 2) (expect pattern cause) fun _ => x + 11 := by
  refine (affords_optional pattern).bind fun o => ?_
  cases o with
  | none => exact .fail (Nat.le_add_left 1 x)
  | some t => exact .pure le_rfl

/-- A word leaves nine more than it needs. -/
lemma affords_word (text : String) : Affords (x + 2) (word text) fun _ => x + 11 :=
  (affords_expect _ _).bind fun _ => .pure le_rfl

lemma affords_semicolon : Affords (x + 2) semicolon fun _ => x + 11 :=
  (affords_expect _ _).bind fun _ => .pure le_rfl

lemma affords_closingParen : Affords (x + 2) closingParen fun _ => x + 11 :=
  (affords_expect _ _).bind fun _ => .pure le_rfl

lemma affords_identifier : Affords (x + 2) identifier fun _ => x + 11 :=
  (affords_expect _ _).bind fun _ => .pure le_rfl

/-- A word that is found pays; one that is not found costs the look. -/
lemma affords_found (text : String) :
    Affords (x + 1) (found text) fun b => cond b (x + 10) x :=
  (affords_optional _).bind fun o => .pure (by cases o <;> exact le_rfl)

end Tokens

/-! ### Choices and repetition -/

namespace Affords

variable {item : Rule α}

lemma introduced (h : Affords (x + 10) item fun _ => x) (text : String) :
    Affords (x + 1) (introduced text item) fun _ => x := by
  refine (affords_found text).bind fun b => ?_
  cases b with
  | false => exact .pure le_rfl
  | true => exact h.bind fun _ => .pure le_rfl

lemma unlessSeen (h : Affords x item fun _ => x) (text : String) :
    Affords (x + 1) (unlessSeen text item) fun _ => x := by
  refine (affords_sees text).bind fun b => ?_
  cases b with
  | false => exact h.bind fun _ => .pure le_rfl
  | true => exact .pure le_rfl

/-- Each round pays for the question whether there is another one. -/
theorem many {continues : Token → Bool}
    (h : ∀ t, continues t → AffordsAt (some t) x item fun _ => x + 1) :
    Affords (x + 1) (many continues item) fun _ => x := by
  intro input
  induction hlength : input.ahead.length using Nat.strongRecOn generalizing input with
  | ind k ih =>
    by_cases hhead : input.ahead.head?.any continues
    case neg =>
      rw [AffordsOn, many_eq_of_not item hhead]
      refine ⟨1, .stop hhead, ?_⟩
      simp only [remaining, inHand]
      omega
    obtain ⟨t, ht, hcontinues⟩ := (Option.any_eq_true _ _).1 hhead
    obtain ⟨m, hruns, hpaid⟩ := h t hcontinues input ht
    rw [AffordsOn, many_eq_bind hhead]
    cases hitem : item input with
    | error fault rest =>
      rw [hitem] at hruns hpaid
      rw [bind_of_error hitem]
      refine ⟨m + 1, .roundFault hhead hruns, ?_⟩
      simp only [remaining, inHand] at hpaid ⊢
      omega
    | ok a mid =>
      rw [hitem] at hruns hpaid
      simp only [remaining, inHand] at hpaid
      have hshorter : mid.ahead.length < input.ahead.length :=
        (h t hcontinues input ht).shorter hitem
      have hrest : AffordsOn mid (x + 1)
          (Rule.many continues item >>= fun as => Pure.pure (a :: as)) fun _ => x :=
        (ih _ (hlength ▸ hshorter) mid rfl).bind fun _ => .pure le_rfl
      obtain ⟨n, hruns', hpaid'⟩ := hrest
      rw [bind_of_ok hitem, furtherRounds, if_pos hshorter]
      exact ⟨m + n + 1, .round hhead hruns hshorter hruns', by omega⟩

/-- The comma pays for the round, also where a closing parenthesis comes after it. -/
lemma further (h : Affords (x + 8) item fun _ => x + 1) {t : Token} :
    AffordsAt (some t) x (further item) fun _ => x + 1 := by
  refine affordsAt_skip.bind fun _ => (affords_sees ")").bind fun b => ?_
  cases b with
  | true => exact .fail (Nat.le_add_left 1 (x + 7))
  | false => exact h

/-- A list in parentheses pays for its end with the parenthesis. -/
lemma parenthesized (h : Affords 3 item fun _ => 4) :
    Affords 4 (parenthesized item) fun _ => 12 := by
  have hround : Affords (3 + 8) item fun _ => 3 + 1 :=
    h.mono (Nat.le_add_right 3 8) fun _ => Nat.le_add_right 7 8
  have hlist : Affords 3 (commaSeparated item) fun _ => 3 :=
    h.bind fun _ => (many fun _ _ => hround.further).bind fun _ => .pure le_rfl
  refine (affords_found ")").bind fun b => ?_
  cases b with
  | true => exact .pure (Nat.le_succ 12)
  | false => exact hlist.bind fun _ => affords_closingParen.bind fun _ => .pure le_rfl

end Affords

end Rule

/-! ## The grammar -/

namespace Grammar

open Rule

section Expressions

variable {nested operand : Rule Expr} {x limit : Nat}

/-- A call with its arguments, which the parenthesis has paid for. -/
lemma affords_call (h : Affords 3 nested fun _ => 4) :
    Affords (x + 1) (introduced "(" (parenthesized nested)) fun _ => x :=
  Affords.introduced (h.parenthesized.mono (by omega) fun _ => by omega) "("

/-- A primary expression reads a token, which pays for its steps. -/
lemma affords_primary (h : Affords 3 nested fun _ => 4) :
    Affords 2 (primary nested) fun _ => 9 := by
  refine affords_peek_bind fun o => ?_
  cases o with
  | none => exact (Affords.fail le_rfl).ahead
  | some t =>
    cases hopening : Opening.ofToken t with
    | literal value =>
      simp only [hopening]
      exact affordsAt_skip.bind fun _ => .pure (Nat.le_succ 9)
    | malformed =>
      simp only [hopening]
      exact affordsAt_skip.bind fun _ => .failAt (Nat.le_add_left 1 9)
    | group =>
      simp only [hopening]
      exact affordsAt_skip.bind fun _ => (h.add 7).bind fun _ => affords_closingParen.bind fun _ =>
        .pure (Nat.le_add_right 9 11)
    | name =>
      simp only [hopening]
      refine affordsAt_skip.bind fun _ => (affords_call h).bind fun o => ?_
      cases o <;> exact .pure le_rfl
    | nothing =>
      simp only [hopening]
      exact (Affords.fail le_rfl).ahead

/-- The point pays for the round. -/
lemma affordsAt_selection (h : Affords 3 nested fun _ => 4) {t : Token} :
    AffordsAt (some t) x (selection nested) fun _ => x + 1 := by
  refine affordsAt_skip.bind fun _ => (affords_expect _ _).bind fun _ =>
    (affords_call h).bind fun o => ?_
  cases o <;> exact .pure (by omega)

/-- Selections cost one look more than there are of them. -/
lemma affords_secondary (h : Affords 3 nested fun _ => 4) :
    Affords 2 (secondary nested) fun _ => 8 :=
  (affords_primary h).bind fun _ => (Affords.many fun _ _ => affordsAt_selection h).bind fun _ =>
    .pure le_rfl

/-- The operator pays for the round. -/
lemma affordsAt_operation (h : Affords 2 operand fun _ => x + 1) {t : Token} :
    AffordsAt (some t) x (operation operand) fun _ => x + 1 :=
  affordsAt_next.bind fun _ => (h.add (x + 7)).bind fun _ => .pure (Nat.le_add_left _ _)

/-- A level costs the question whether there is another operator. -/
lemma affords_leftNested (h : Affords 2 operand fun _ => x + 1) (operators : List String) :
    Affords 2 (leftNested operators operand) fun _ => x :=
  h.bind fun _ => (Affords.many fun _ _ => affordsAt_operation h).bind fun _ => .pure le_rfl

lemma affords_multiplicative (h : Affords 3 nested fun _ => 4) :
    Affords 2 (multiplicative nested) fun _ => 7 :=
  affords_leftNested (affords_secondary h) _

lemma affords_additive (h : Affords 3 nested fun _ => 4) :
    Affords 2 (additive nested) fun _ => 6 :=
  affords_leftNested (affords_multiplicative h) _

lemma affords_equality (h : Affords 3 nested fun _ => 4) :
    Affords 2 (equality nested) fun _ => 5 :=
  affords_leftNested (affords_additive h) _

lemma affords_logical (h : Affords 3 nested fun _ => 4) :
    Affords 2 (logical nested) fun _ => 4 :=
  affords_leftNested (affords_equality h) _

/-- An expression leaves more in hand than it needs, whatever the limit is. -/
theorem affords_expression (limit : Nat) : Affords 3 (expression limit) fun _ => 4 := by
  induction limit with
  | zero => exact (Affords.fail (Nat.le_succ 1)).enter (fun _ => rfl) .expressionTooDeep
  | succ limit ih => exact (affords_logical ih).enter (fun _ => rfl) .expression

end Expressions

/-! ### Statements, methods and programs -/

/-- What a statement contains affords its runs. -/
structure AffordsInner (inner : Inner Rule) : Prop where
  expression : Affords 3 inner.expression fun _ => 4
  block : ∀ terminator, Affords 6 (inner.block terminator) fun _ => 4

/-- A binding reads three tokens at least. -/
lemma affords_letBinding {nested : Rule Expr} (h : Affords 3 nested fun _ => 4) :
    Affords 2 (letBinding nested) fun _ => 27 := by
  have htype : Affords (19 + 1) (Rule.introduced ":" Rule.identifier) fun _ => 19 :=
    Affords.introduced (affords_identifier.mono le_rfl fun _ => by omega) ":"
  have hvalue : Affords (18 + 1) (Rule.introduced "=" nested) fun _ => 18 :=
    Affords.introduced (h.mono (by omega) fun _ => by omega) "="
  have hbinding : Affords 11 (binding nested) fun _ => 18 :=
    affords_identifier.bind fun _ => htype.bind fun _ => hvalue.bind fun _ => .pure le_rfl
  exact (affords_word "LET").bind fun _ => hbinding.bind fun _ => affords_semicolon.bind fun _ =>
    .pure le_rfl

namespace AffordsInner

variable {inner : Inner Rule}

lemma enclosed (h : AffordsInner inner) : Affords 2 (enclosed inner) fun _ => 18 :=
  (affords_word "DO").bind fun _ => ((h.block _).add 5).bind fun _ =>
    (affords_word "END").bind fun _ => .pure le_rfl

lemma declaration (h : AffordsInner inner) : Affords 2 (declaration inner) fun _ => 12 :=
  (affords_letBinding h.expression).bind fun _ => .pure (by omega)

lemma conditional (h : AffordsInner inner) : Affords 2 (conditional inner) fun _ => 12 := by
  have helse : Affords (18 + 1) (Rule.introduced "ELSE" (inner.block (.literal "END")))
      fun _ => 18 := Affords.introduced ((h.block _).mono (by omega) fun _ => by omega) "ELSE"
  exact (affords_word "IF").bind fun _ => (h.expression.add 8).bind fun _ =>
    (affords_word "DO").bind fun _ => ((h.block _).add 15).bind fun _ => helse.bind fun _ =>
      (affords_word "END").bind fun _ => .pure (by omega)

lemma forEach (h : AffordsInner inner) : Affords 2 (forEach inner) fun _ => 12 :=
  (affords_word "FOR").bind fun _ => affords_identifier.bind fun _ =>
    (affords_word "IN").bind fun _ => (h.expression.add 26).bind fun _ =>
      (h.enclosed.add 28).bind fun _ => .pure (by omega)

lemma whileLoop (h : AffordsInner inner) : Affords 2 (whileLoop inner) fun _ => 12 :=
  (affords_word "WHILE").bind fun _ => (h.expression.add 8).bind fun _ =>
    (h.enclosed.add 10).bind fun _ => .pure (by omega)

lemma result (h : AffordsInner inner) : Affords 2 (result inner) fun _ => 12 := by
  have hvalue : Affords (10 + 1) (Rule.unlessSeen ";" inner.expression) fun _ => 10 :=
    Affords.unlessSeen (h.expression.mono (by omega) fun _ => by omega) ";"
  exact (affords_word "RETURN").bind fun _ => hvalue.bind fun _ => affords_semicolon.bind fun _ =>
    .pure (by omega)

lemma evaluation (h : AffordsInner inner) : Affords 3 (evaluation inner) fun _ => 12 := by
  have hvalue : Affords (3 + 1) (Rule.introduced "=" inner.expression) fun _ => 3 :=
    Affords.introduced (h.expression.mono (by omega) fun _ => by omega) "="
  refine h.expression.bind fun _ => hvalue.bind fun o => ?_
  cases o <;> exact affords_semicolon.bind fun _ => .pure le_rfl

/-- A statement reads a semicolon or an `END` besides what it starts with, which leaves enough for
the round. -/
lemma statement (h : AffordsInner inner) : Affords 4 (statement inner) fun _ => 12 := by
  refine affords_peek_bind fun o => ?_
  cases Form.ofToken? o with
  | declaration => exact (h.declaration.mono (Nat.le_succ 2) fun _ => by omega).ahead
  | conditional => exact (h.conditional.mono (Nat.le_succ 2) fun _ => by omega).ahead
  | forEach => exact (h.forEach.mono (Nat.le_succ 2) fun _ => by omega).ahead
  | whileLoop => exact (h.whileLoop.mono (Nat.le_succ 2) fun _ => by omega).ahead
  | result => exact (h.result.mono (Nat.le_succ 2) fun _ => by omega).ahead
  | evaluation => exact h.evaluation.ahead

lemma statements (h : AffordsInner inner) (terminator : Pattern) :
    Affords 5 (statements inner terminator) fun _ => 4 :=
  Affords.many fun _ _ => (h.statement.mono le_rfl fun _ => by omega).ahead

lemma method (h : AffordsInner inner) : Affords 2 (method inner) fun _ => 12 := by
  have hparameters : Affords 4 (Rule.parenthesized Rule.identifier) fun _ => 12 :=
    Affords.parenthesized (affords_identifier.mono (Nat.le_succ 2) fun _ => by omega)
  exact (affords_word "DEF").bind fun _ => affords_identifier.bind fun _ =>
    (affords_word "(").bind fun _ => (hparameters.add 25).bind fun _ =>
      (h.enclosed.add 35).bind fun _ => .pure (by omega)

end AffordsInner

/-- A block gives back less than it needs, since it may be empty; the words around it pay. -/
theorem affords_block (limit : Nat) (terminator : Pattern) :
    Affords 6 (block limit terminator) fun _ => 4 := by
  induction limit generalizing terminator with
  | zero => exact (Affords.fail (Nat.le_add_left 1 4)).enter (fun _ => rfl) .blockTooDeep
  | succ limit ih =>
    have hinner : AffordsInner ⟨expression limit, block limit⟩ := ⟨affords_expression limit, ih⟩
    exact (hinner.statements terminator).enter (fun _ => rfl) .block

/-- What statements contain can be afforded at every limit. -/
lemma affordsInner (limit : Nat) : AffordsInner (innerAt limit) :=
  ⟨affords_expression limit, affords_block limit⟩

/-- The repetitions of the grammar: the token ahead that asks for a round, and what a round
reads. -/
inductive Loop : {α : Type} → (Token → Bool) → Rule α → Prop where
  | fields (limit : Nat) : Loop (Pattern.literal "LET").fits (letBinding (expression limit))
  | methods (limit : Nat) : Loop (Pattern.literal "DEF").fits (method (innerAt limit))
  | parameters : Loop (Pattern.literal ",").fits (Rule.further Rule.identifier)
  | statements (limit : Nat) (terminator : Pattern) :
      Loop (fun token => !terminator.fits token) (statement (innerAt limit))
  | arguments (limit : Nat) : Loop (Pattern.literal ",").fits (Rule.further (expression limit))
  | selections (limit : Nat) : Loop (Pattern.literal ".").fits (selection (expression limit))
  | multiplicative (limit : Nat) : Loop (Pattern.oneOf Level.multiplicative.operators).fits
      (operation (secondary (expression limit)))
  | additive (limit : Nat) : Loop (Pattern.oneOf Level.additive.operators).fits
      (operation (Grammar.multiplicative (expression limit)))
  | equality (limit : Nat) : Loop (Pattern.oneOf Level.equality.operators).fits
      (operation (Grammar.additive (expression limit)))
  | logical (limit : Nat) : Loop (Pattern.oneOf Level.logical.operators).fits
      (operation (Grammar.equality (expression limit)))

variable {α : Type} {continues : Token → Bool} {item : Rule α}

/-- A round leaves more in hand than it needs. -/
lemma Loop.affordsAt (h : Loop continues item) (t : Token) :
    ∃ x, AffordsAt (some t) x item fun _ => x + 1 := by
  cases h with
  | fields limit =>
    exact ⟨2, ((affords_letBinding (affords_expression limit)).mono le_rfl fun _ => by omega).ahead⟩
  | methods limit => exact ⟨2, ((affordsInner limit).method.mono le_rfl fun _ => by omega).ahead⟩
  | parameters =>
    exact ⟨0, Affords.further ((affords_identifier (x := 0)).mono (by omega) fun _ => by omega)⟩
  | statements limit _ =>
    exact ⟨4, ((affordsInner limit).statement.mono le_rfl fun _ => by omega).ahead⟩
  | arguments limit =>
    exact ⟨0, Affords.further ((affords_expression limit).mono (by omega) fun _ => by omega)⟩
  | selections limit => exact ⟨0, affordsAt_selection (affords_expression limit)⟩
  | multiplicative limit =>
    exact ⟨7, affordsAt_operation (affords_secondary (affords_expression limit))⟩
  | additive limit =>
    exact ⟨6, affordsAt_operation (affords_multiplicative (affords_expression limit))⟩
  | equality limit =>
    exact ⟨5, affordsAt_operation (affords_additive (affords_expression limit))⟩
  | logical limit =>
    exact ⟨4, affordsAt_operation (affords_equality (affords_expression limit))⟩

/-- A round that succeeds has read a token. -/
theorem Loop.shorter (h : Loop continues item) {input output : TokenInput} {a : α}
    (hhead : input.ahead.head?.any continues) (hitem : item input = .ok a output) :
    output.ahead.length < input.ahead.length := by
  obtain ⟨t, ht, -⟩ := (Option.any_eq_true _ _).1 hhead
  obtain ⟨x, hafford⟩ := h.affordsAt t
  exact (hafford input ht).shorter hitem

/-! ## Constructs -/

end Grammar

open Grammar

end LetDef
