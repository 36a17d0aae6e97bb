import LetDef.Grammar.Construct
import LetDef.Proofs.Grammar.Soundness

/-!
# Two runs side by side

Several facts about the grammar compare two runs of the same rules: on a token list and on one that
starts in the same way, on two token lists that differ in layout, under a limit and under a larger
one.  Each time the two runs go through corresponding inputs, look at tokens that count as the same
and so come to corresponding ends.

A `Coupling` says what corresponds to what, and which steps of a run have to respect it: looking at
the token ahead, taking it away, and failing there.  The rules are built from those three steps by
sequencing and repetition alone, so every coupling extends to every rule of the grammar
(`Coupling.couples_rule`).  A comparison of two runs is then a choice of a coupling.

Two kinds of comparison do not last until the end of a run.  Inputs that start in the same way
correspond no longer once the common start has been read (`Coupling.parted`), and a run that has
used up its limit does not correspond to one with a larger limit (`Coupling.givesUp`).  From there
on a coupling says nothing.
-/

namespace LetDef

/-- What two runs have in common, and that single steps keep it. -/
structure Coupling where
  /-- The tokens count as the same. -/
  token : Token → Token → Prop
  /-- The inputs correspond. -/
  input : TokenInput → TokenInput → Prop
  /-- The faults correspond. -/
  fault : Fault → Fault → Prop
  /-- The first run has left the part of its input in which the runs are compared. -/
  parted : TokenInput → Prop
  /-- The first run gives up with such a fault, whatever the second one does. -/
  givesUp : Cause → Prop
  kind_eq : ∀ {t u}, token t u → t.kind = u.kind
  literal_eq : ∀ {t u}, token t u → t.literal = u.literal
  head : ∀ {i j}, input i j → Option.Rel token i.ahead.head? j.ahead.head?
  shorter_iff : ∀ {i j i' j'}, input i j → input i' j' →
    (i'.ahead.length < i.ahead.length ↔ j'.ahead.length < j.ahead.length)
  advance : ∀ {i j}, input i j → parted i.advance ∨ input i.advance j.advance
  fault_ahead : ∀ {i j cause}, input i j → cause ≠ .malformedLiteral →
    fault ⟨cause, i.nextOffset⟩ ⟨cause, j.nextOffset⟩
  fault_malformed : ∀ {t u}, token t u → Grammar.Opening.ofToken t = .malformed →
    fault ⟨.malformedLiteral, t.offset⟩ ⟨.malformedLiteral, u.offset⟩
  parted_advance : ∀ {i}, parted i → parted i.advance
  token_self : ∀ {i}, parted i → ∀ t ∈ i.ahead.head?, token t t

/-- What is related to itself is so as an option, whether it is there or not. -/
lemma optionRel_self {α : Type} {R : α → α → Prop} {o : Option α} (h : ∀ a ∈ o, R a a) :
    Option.Rel R o o := by
  cases o with
  | none => exact .none
  | some a => exact .some (h a rfl)

lemma malformed_eq {t u : Token} (h : t = u) :
    (⟨.malformedLiteral, t.offset⟩ : Fault) = ⟨.malformedLiteral, u.offset⟩ := by
  rw [h]

/-- The input that a rule leaves behind. -/
def Rule.inputAfter {α : Type} : EStateM.Result Fault TokenInput α → TokenInput
  | .ok _ rest => rest
  | .error _ rest => rest

open Rule

namespace Coupling

variable {C : Coupling} {α β : Type}

/-! ## Runs that correspond -/

/-- The ends of two runs correspond, as far as they are compared. -/
inductive Meets (C : Coupling) :
    EStateM.Result Fault TokenInput α → EStateM.Result Fault TokenInput α → Prop where
  | ok {a : α} {i j : TokenInput} : C.input i j → Meets C (.ok a i) (.ok a j)
  | error {f g : Fault} {i j : TokenInput} :
      C.fault f g → C.input i j → Meets C (.error f i) (.error g j)
  | parted {x y : EStateM.Result Fault TokenInput α} : C.parted (inputAfter x) → Meets C x y
  | gaveUp {f : Fault} {i : TokenInput} {y : EStateM.Result Fault TokenInput α} :
      C.givesUp f.cause → Meets C (.error f i) y

/-- Runs of the two rules on inputs that correspond have ends that correspond. -/
structure Couples (C : Coupling) (r s : Rule α) : Prop where
  stays : ∀ i, C.parted i → C.parted (inputAfter (r i))
  meets : ∀ i j, C.input i j → C.Meets (r i) (s j)

/-! ## Single steps and sequencing -/

/-- An answer that is given at once leaves both inputs where they are. -/
theorem couples_pure (a : α) : C.Couples (pure a) (pure a) where
  stays _ hi := hi
  meets _ _ hij := .ok hij

/-- Both runs fail at the token ahead, at places that correspond. -/
theorem couples_fail {cause : Cause} (h : cause ≠ .malformedLiteral) :
    C.Couples (fail cause : Rule α) (fail cause) where
  stays _ hi := hi
  meets _ _ hij := .error (C.fault_ahead hij h) hij

/-- Both runs fail at the literal that they have read, which is malformed in both. -/
theorem couples_malformed {t u : Token} (h : C.token t u)
    (hopening : Grammar.Opening.ofToken t = .malformed) :
    C.Couples (failAt .malformedLiteral t.offset : Rule α)
      (failAt .malformedLiteral u.offset) where
  stays _ hi := hi
  meets _ _ hij := .error (C.fault_malformed h hopening) hij

/-- Both runs take a token away, or the first one has come to the end of what is compared. -/
theorem couples_skip : C.Couples skip skip where
  stays _ hi := C.parted_advance hi
  meets _ _ hij := (C.advance hij).elim (fun h => .parted h) fun h => .ok h

/-- A look at the token ahead.  The two runs go on by tokens that count as the same. -/
theorem couples_peek_bind {f g : Option Token → Rule β}
    (h : ∀ o p, Option.Rel C.token o p → C.Couples (f o) (g p)) :
    C.Couples (peek >>= f) (peek >>= g) where
  stays i hi := (h _ _ (optionRel_self (C.token_self hi))).stays i hi
  meets i j hij := (h _ _ (C.head hij)).meets i j hij

/-- A run that has left the compared part does not come back to it. -/
lemma parted_bind {r : Rule α} {f : α → Rule β} {i : TokenInput} (h : C.parted (inputAfter (r i)))
    (hf : ∀ a rest, C.parted rest → C.parted (inputAfter (f a rest))) :
    C.parted (inputAfter ((r >>= f) i)) := by
  cases hr : r i with
  | ok a rest =>
    rw [hr] at h
    rw [bind_of_ok hr]
    exact hf a rest h
  | error fault rest =>
    rw [hr] at h
    rwa [bind_of_error hr]

/-- Where the first parts correspond, it is enough to look at the second parts on inputs that
correspond. -/
lemma Meets.bind {r s : Rule α} {f g : α → Rule β} {i j : TokenInput} (h : C.Meets (r i) (s j))
    (hstays : ∀ a rest, C.parted rest → C.parted (inputAfter (f a rest)))
    (hmeets : ∀ a rest rest', C.input rest rest' → C.Meets (f a rest) (g a rest')) :
    C.Meets ((r >>= f) i) ((s >>= g) j) := by
  cases hr : r i with
  | ok a rest =>
    rw [hr] at h
    rw [bind_of_ok hr]
    generalize hs : s j = y at h
    cases h with
    | ok hrest =>
      rw [bind_of_ok hs]
      exact hmeets a _ _ hrest
    | parted hrest => exact .parted (hstays a rest hrest)
  | error fault rest =>
    rw [hr] at h
    rw [bind_of_error hr]
    generalize hs : s j = y at h
    cases h with
    | error hfault hrest =>
      rw [bind_of_error hs]
      exact .error hfault hrest
    | parted hrest => exact .parted hrest
    | gaveUp hcause => exact .gaveUp hcause

/-- Sequences correspond if their parts do. -/
theorem Couples.bind {r s : Rule α} {f g : α → Rule β} (h : C.Couples r s)
    (hf : ∀ a, C.Couples (f a) (g a)) : C.Couples (r >>= f) (s >>= g) where
  stays i hi := parted_bind (h.stays i hi) fun a => (hf a).stays
  meets i j hij := (h.meets i j hij).bind (fun a => (hf a).stays) fun a => (hf a).meets

theorem Couples.map {r s : Rule α} (h : C.Couples r s) (f : α → β) :
    C.Couples (f <$> r) (f <$> s) := by
  rw [map_eq_bind, map_eq_bind]
  exact h.bind fun a => couples_pure (f a)

/-! ## Tokens that are expected -/

/-- An optional token is a look at the token ahead and, if it fits, a step. -/
lemma optional_eq_bind (pattern : Pattern) :
    Rule.optional pattern = peek >>= fun o =>
      if o.any pattern.fits then skip >>= fun _ => pure o else pure none := by
  funext ⟨ahead, stop⟩
  rcases ahead with _ | ⟨t, rest⟩
  · rfl
  · by_cases hfits : pattern.fits t <;>
      simp [Rule.optional, peek, skip, bind, EStateM.bind, pure, EStateM.pure, hfits,
        TokenInput.advance, TokenInput.advanceBy]

/-- What comes after an expected token sees nothing of it but the token itself. -/
lemma expect_bind_eq (pattern : Pattern) (cause : Cause) (f : Token → Rule β) :
    expect pattern cause >>= f = peek >>= fun o =>
      if o.any pattern.fits then skip >>= fun _ => o.elim (fail cause) f else fail cause := by
  have hfail : ∀ g : Token → Rule β, fail cause >>= g = fail cause := fun _ => rfl
  rw [expect, optional_eq_bind, bind_assoc, bind_assoc]
  congr 1
  funext o
  rcases o with _ | t
  · simp [hfail]
  · by_cases hfits : pattern.fits t <;> simp [hfits, hfail]

/-- Patterns do not tell tokens apart that count as the same. -/
lemma fits_eq {t u : Token} (h : C.token t u) (pattern : Pattern) :
    pattern.fits t = pattern.fits u := by
  cases pattern <;> simp [Pattern.fits, C.kind_eq h, C.literal_eq h]

lemma any_fits_eq {o p : Option Token} (h : Option.Rel C.token o p) (pattern : Pattern) :
    o.any pattern.fits = p.any pattern.fits := by
  cases h with
  | some htoken => exact fits_eq htoken pattern
  | none => rfl

/-- A token that is expected; the runs go on by what both have read. -/
theorem couples_expect_bind {pattern : Pattern} {cause : Cause} {f g : Token → Rule β}
    (hcause : cause ≠ .malformedLiteral)
    (h : ∀ t u, C.token t u → C.Couples (f t) (g u)) :
    C.Couples (expect pattern cause >>= f) (expect pattern cause >>= g) := by
  rw [expect_bind_eq, expect_bind_eq]
  refine couples_peek_bind fun o p hop => ?_
  rw [any_fits_eq hop]
  split
  · refine couples_skip.bind fun _ => ?_
    cases hop with
    | some htoken => exact h _ _ htoken
    | none => exact couples_fail hcause
  · exact couples_fail hcause

/-- Neither run learns more from a word than that it was there. -/
theorem couples_word (text : String) : C.Couples (word text) (word text) :=
  couples_expect_bind (by simp) fun _ _ _ => couples_pure ()

theorem couples_semicolon : C.Couples semicolon semicolon :=
  couples_expect_bind (by simp) fun _ _ _ => couples_pure ()

theorem couples_closingParen : C.Couples closingParen closingParen :=
  couples_expect_bind (by simp) fun _ _ _ => couples_pure ()

/-- Both runs read the same name, because the tokens have the same text. -/
theorem couples_identifier : C.Couples identifier identifier := by
  refine couples_expect_bind (by simp) fun t u htoken => ?_
  rw [C.literal_eq htoken]
  exact couples_pure u.literal

/-! ## Choices by the token ahead -/

/-- To see a text is to look at the token ahead. -/
lemma sees_eq_bind (text : String) :
    sees text = peek >>= fun o => Pure.pure (o.any (Pattern.literal text).fits) := by
  funext i
  rw [sees_eq]
  rfl

theorem couples_sees (text : String) : C.Couples (sees text) (sees text) := by
  rw [sees_eq_bind]
  refine couples_peek_bind fun o p hop => ?_
  rw [any_fits_eq hop]
  exact couples_pure _

/-- To find a text is to see it and to take it away. -/
lemma found_eq_bind (text : String) :
    found text = sees text >>= fun b =>
      if b then skip >>= fun _ => Pure.pure true else Pure.pure false := by
  funext ⟨ahead, stop⟩
  rcases ahead with _ | ⟨t, rest⟩
  · rfl
  · rw [bind_of_ok (sees_eq text _)]
    by_cases ht : t.literal = text
    · have hfound := found_reads ht rest stop
      rw [List.singleton_append] at hfound
      simp only [hfound, List.head?_cons, Option.any_some, ht, decide_true, if_true]
      rfl
    · have hfound : found text ⟨t :: rest, stop⟩ = .ok false ⟨t :: rest, stop⟩ :=
        found_reads_nil (by simpa [StartsOutside]) stop
      simp only [hfound, List.head?_cons, Option.any_some, ht, decide_false]
      rfl

theorem couples_found (text : String) : C.Couples (found text) (found text) := by
  rw [found_eq_bind]
  refine (couples_sees text).bind fun b => ?_
  split
  · exact couples_skip.bind fun _ => couples_pure true
  · exact couples_pure false

/-- Both runs find the word or neither does. -/
theorem Couples.introduced {item item' : Rule α} (h : C.Couples item item') (text : String) :
    C.Couples (introduced text item) (introduced text item') := by
  refine (couples_found text).bind fun b => ?_
  cases b with
  | false => exact couples_pure none
  | true => exact h.bind fun a => couples_pure (some a)

/-- Both runs see the word or neither does. -/
theorem Couples.unlessSeen {item item' : Rule α} (h : C.Couples item item') (text : String) :
    C.Couples (unlessSeen text item) (unlessSeen text item') := by
  refine (couples_sees text).bind fun b => ?_
  cases b with
  | false => exact h.bind fun a => couples_pure (some a)
  | true => exact couples_pure none

/-! ## Repetition -/

/-- A repetition that starts behind the compared part stays there, by induction on the tokens ahead.
-/
lemma many_stays {continues : Token → Bool} {item : Rule α}
    (h : ∀ i, C.parted i → C.parted (inputAfter (item i))) (i : TokenInput) (hi : C.parted i) :
    C.parted (inputAfter (Rule.many continues item i)) := by
  induction hn : i.ahead.length using Nat.strongRecOn generalizing i with
  | ind n ih =>
    by_cases hhead : i.ahead.head?.any continues
    · rw [many_eq_bind hhead, hn]
      refine parted_bind (h i hi) fun a rest hrest => ?_
      unfold furtherRounds
      split
      · next hlt => exact parted_bind (ih _ hlt rest hrest rfl) fun _ _ h => h
      · exact hrest
    · rwa [many_eq_of_not item hhead]

/-- Repetitions correspond: both runs begin a round, or neither does, because their tokens ahead
count as the same. -/
theorem Couples.many {continues : Token → Bool} {item item' : Rule α} (h : C.Couples item item')
    (hcontinues : ∀ t u, C.token t u → continues t = continues u) :
    C.Couples (Rule.many continues item) (Rule.many continues item') where
  stays := many_stays h.stays
  meets i j hij := by
    induction hn : i.ahead.length using Nat.strongRecOn generalizing i j with
    | ind n ih =>
      have hsame : i.ahead.head?.any continues = j.ahead.head?.any continues := by
        have hheads := C.head hij
        generalize i.ahead.head? = o at hheads
        generalize j.ahead.head? = p at hheads
        cases hheads with
        | some htoken => exact hcontinues _ _ htoken
        | none => rfl
      by_cases hhead : i.ahead.head?.any continues
      · rw [many_eq_bind hhead, many_eq_bind (hsame ▸ hhead)]
        refine (h.meets i j hij).bind (fun a rest hrest => ?_) fun a rest rest' hrest => ?_
        · unfold furtherRounds
          split
          · exact parted_bind (many_stays h.stays rest hrest) fun _ _ h => h
          · exact hrest
        · -- Both repetitions go on, or neither does: progress is measured alike in both runs.
          have hshorter := C.shorter_iff hij hrest
          unfold furtherRounds
          by_cases hlt : rest.ahead.length < i.ahead.length
          · rw [if_pos hlt, if_pos (hshorter.1 hlt)]
            exact (ih _ (hn ▸ hlt) rest rest' hrest rfl).bind (fun _ _ h => h) fun _ _ _ h => .ok h
          · rw [if_neg hlt, if_neg fun hlt' => hlt (hshorter.2 hlt')]
            exact .ok hrest
      · rw [many_eq_of_not item hhead, many_eq_of_not item' (hsame ▸ hhead)]
        exact .ok hij

theorem Couples.manyFrom {item item' : Rule α} (h : C.Couples item item') (text : String) :
    C.Couples (Rule.manyFrom text item) (Rule.manyFrom text item') :=
  h.many fun _ _ htoken => fits_eq htoken (.literal text)

/-- Lists in parentheses correspond if their items do. -/
theorem Couples.parenthesized {item item' : Rule α} (h : C.Couples item item') :
    C.Couples (Rule.parenthesized item) (Rule.parenthesized item') := by
  have hfurther : C.Couples (further item) (further item') := by
    refine couples_skip.bind fun _ => (couples_sees ")").bind fun b => ?_
    cases b with
    | false => exact h
    | true => exact couples_fail (by simp)
  have hlist : C.Couples (commaSeparated item) (commaSeparated item') :=
    h.bind fun a => (hfurther.manyFrom ",").bind fun as => couples_pure (a :: as)
  refine (couples_found ")").bind fun b => ?_
  cases b with
  | false => exact hlist.bind fun as => couples_closingParen.bind fun _ => couples_pure as
  | true => exact couples_pure []

/-! ## Expressions -/

open Grammar

/-- What a token opens depends on its kind and its text alone. -/
lemma opening_eq {t u : Token} (h : C.token t u) : Opening.ofToken t = Opening.ofToken u := by
  unfold Opening.ofToken literalValue?
  rw [C.kind_eq h, C.literal_eq h]

/-- Primary expressions correspond if the expressions in them do. -/
theorem Couples.primary {nested nested' : Rule Expr} (h : C.Couples nested nested') :
    C.Couples (primary nested) (primary nested') := by
  refine couples_peek_bind fun o p hop => ?_
  cases hop with
  | none => exact couples_fail (by simp)
  | @some t u htoken =>
    have hname : t.literal = u.literal := C.literal_eq htoken
    have hopening : Opening.ofToken t = Opening.ofToken u := opening_eq htoken
    simp only
    rw [← hopening, ← hname]
    cases hcase : Opening.ofToken t with
    | literal value => exact couples_skip.bind fun _ => couples_pure _
    | malformed => exact couples_skip.bind fun _ => couples_malformed htoken hcase
    | group => exact couples_skip.bind fun _ => h.bind fun _ => couples_closingParen.bind fun _ =>
        couples_pure _
    | name =>
      refine couples_skip.bind fun _ => (h.parenthesized.introduced "(").bind fun o => ?_
      cases o with
      | none => exact couples_pure _
      | some es => exact couples_pure _
    | nothing => exact couples_fail (by simp)

/-- Selections correspond if the arguments in them do. -/
theorem Couples.secondary {nested nested' : Rule Expr} (h : C.Couples nested nested') :
    C.Couples (secondary nested) (secondary nested') := by
  have hselection : C.Couples (selection nested) (selection nested') := by
    refine couples_skip.bind fun _ => couples_expect_bind (by simp) fun t u htoken => ?_
    rw [selectionRest, selectionRest, C.literal_eq htoken]
    refine (h.parenthesized.introduced "(").bind fun o => ?_
    cases o with
    | none => exact couples_pure _
    | some es => exact couples_pure _
  exact h.primary.bind fun _ => (hselection.manyFrom ".").bind fun _ => couples_pure _

/-- To read the token ahead is to look at it, to fail if there is none, and to take it away. -/
lemma next_bind_eq (f : Token → Rule β) :
    next >>= f = peek >>= fun o => o.elim (fail .endOfInput) fun t => skip >>= fun _ => f t := by
  funext ⟨ahead, stop⟩
  rcases ahead with _ | ⟨t, rest⟩ <;> rfl

/-- Expressions of a level correspond if their operands do. -/
theorem Couples.leftNested {operand operand' : Rule Expr} (h : C.Couples operand operand')
    (operators : List String) :
    C.Couples (leftNested operators operand) (leftNested operators operand') := by
  have hoperation : C.Couples (operation operand) (operation operand') := by
    rw [operation, operation, liftM_rule, next_bind_eq, next_bind_eq]
    refine couples_peek_bind fun o p hop => ?_
    cases hop with
    | none => exact couples_fail (by simp)
    | @some t u htoken =>
      have hname : t.literal = u.literal := C.literal_eq htoken
      simp only [Option.elim_some]
      rw [hname]
      exact couples_skip.bind fun _ => h.bind fun _ => couples_pure _
  have hoperations := hoperation.many fun _ _ htoken => fits_eq htoken (.oneOf operators)
  exact h.bind fun _ => hoperations.bind fun _ => couples_pure _

theorem Couples.multiplicative {nested nested' : Rule Expr} (h : C.Couples nested nested') :
    C.Couples (multiplicative nested) (multiplicative nested') :=
  h.secondary.leftNested _

theorem Couples.additive {nested nested' : Rule Expr} (h : C.Couples nested nested') :
    C.Couples (additive nested) (additive nested') :=
  h.multiplicative.leftNested _

theorem Couples.equality {nested nested' : Rule Expr} (h : C.Couples nested nested') :
    C.Couples (equality nested) (equality nested') :=
  h.additive.leftNested _

theorem Couples.logical {nested nested' : Rule Expr} (h : C.Couples nested nested') :
    C.Couples (logical nested) (logical nested') :=
  h.equality.leftNested _

/-- The coupling bears that the first run has the limit `limit` and the second one `limit'`. -/
def Admits (C : Coupling) (limit limit' : Nat) : Prop :=
  limit = limit' ∨ limit < limit' ∧ C.givesUp .recursionLimit

/-- Under every coupling a limit may be compared with itself. -/
lemma admits_self (C : Coupling) (limit : Nat) : C.Admits limit limit :=
  .inl rfl

/-- Limits that may be compared shrink together. -/
lemma Admits.pred {limit limit' : Nat} (h : C.Admits (limit + 1) limit') :
    ∃ n, limit' = n + 1 ∧ C.Admits limit n := by
  rcases h with rfl | ⟨hlt, hgivesUp⟩
  · exact ⟨limit, rfl, .inl rfl⟩
  · obtain ⟨n, rfl⟩ : ∃ n, limit' = n + 1 := ⟨limit' - 1, by omega⟩
    exact ⟨n, rfl, .inr ⟨by omega, hgivesUp⟩⟩

/-- Where the first run must not nest any more, the second one must not either, or the first one
gives up. -/
lemma couples_of_admits_zero {limit' : Nat} {r : Rule α} {s : Rule α} (h : C.Admits 0 limit')
    (hr : r = fail .recursionLimit) (hs : limit' = 0 → s = fail .recursionLimit) :
    C.Couples r s := by
  rw [hr]
  rcases h with hzero | ⟨-, hgivesUp⟩
  · rw [hs hzero.symm]
    exact couples_fail (by simp)
  · exact ⟨fun _ hi => hi, fun _ _ _ => .gaveUp hgivesUp⟩

/-- Whole expressions correspond, by induction on the limit of the first run. -/
theorem couples_expression {limit limit' : Nat} (h : C.Admits limit limit') :
    C.Couples (expression limit) (expression limit') := by
  induction limit generalizing limit' with
  | zero => exact couples_of_admits_zero h rfl fun hzero => by rw [hzero]; rfl
  | succ limit ih =>
    obtain ⟨n, rfl, hn⟩ := h.pred
    exact (ih hn).logical

/-! ## Statements, methods and programs -/

/-- The rules for what statements contain correspond. -/
structure CouplesInner (C : Coupling) (inner inner' : Inner Rule) : Prop where
  expression : C.Couples inner.expression inner'.expression
  block : ∀ terminator, C.Couples (inner.block terminator) (inner'.block terminator)

/-- Bindings correspond if their values do. -/
theorem Couples.letBinding {nested nested' : Rule Expr} (h : C.Couples nested nested') :
    C.Couples (letBinding nested) (letBinding nested') := by
  have hbinding : C.Couples (binding nested) (binding nested') :=
    couples_identifier.bind fun _ => (couples_identifier.introduced ":").bind fun _ =>
      (h.introduced "=").bind fun _ => couples_pure _
  exact (couples_word "LET").bind fun _ => hbinding.bind fun _ => couples_semicolon.bind fun _ =>
    couples_pure _

namespace CouplesInner

variable {inner inner' : Inner Rule}

theorem declaration (h : C.CouplesInner inner inner') :
    C.Couples (declaration inner) (declaration inner') :=
  h.expression.letBinding.bind fun _ => couples_pure _

theorem conditional (h : C.CouplesInner inner inner') :
    C.Couples (conditional inner) (conditional inner') :=
  (couples_word "IF").bind fun _ => h.expression.bind fun _ => (couples_word "DO").bind fun _ =>
    (h.block _).bind fun _ => ((h.block _).introduced "ELSE").bind fun _ =>
      (couples_word "END").bind fun _ => couples_pure _

theorem enclosed (h : C.CouplesInner inner inner') :
    C.Couples (enclosed inner) (enclosed inner') :=
  (couples_word "DO").bind fun _ => (h.block _).bind fun _ => (couples_word "END").bind fun _ =>
    couples_pure _

theorem forEach (h : C.CouplesInner inner inner') : C.Couples (forEach inner) (forEach inner') :=
  (couples_word "FOR").bind fun _ => couples_identifier.bind fun _ =>
    (couples_word "IN").bind fun _ => h.expression.bind fun _ => h.enclosed.bind fun _ =>
      couples_pure _

theorem whileLoop (h : C.CouplesInner inner inner') :
    C.Couples (whileLoop inner) (whileLoop inner') :=
  (couples_word "WHILE").bind fun _ => h.expression.bind fun _ => h.enclosed.bind fun _ =>
    couples_pure _

theorem result (h : C.CouplesInner inner inner') : C.Couples (result inner) (result inner') :=
  (couples_word "RETURN").bind fun _ => (h.expression.unlessSeen ";").bind fun _ =>
    couples_semicolon.bind fun _ => couples_pure _

theorem evaluation (h : C.CouplesInner inner inner') :
    C.Couples (evaluation inner) (evaluation inner') := by
  refine h.expression.bind fun _ => (h.expression.introduced "=").bind fun o => ?_
  cases o with
  | none => exact couples_semicolon.bind fun _ => couples_pure _
  | some _ => exact couples_semicolon.bind fun _ => couples_pure _

/-- Statements correspond form by form; both runs decide on the same form. -/
theorem statement (h : C.CouplesInner inner inner') :
    C.Couples (statement inner) (statement inner') := by
  refine couples_peek_bind fun o p hop => ?_
  have hform : Form.ofToken? o = Form.ofToken? p := by
    cases hop with
    | none => rfl
    | some htoken => exact congrArg Form.ofWord (C.literal_eq htoken)
  rw [hform]
  cases Form.ofToken? p with
  | declaration => exact h.declaration
  | conditional => exact h.conditional
  | forEach => exact h.forEach
  | whileLoop => exact h.whileLoop
  | result => exact h.result
  | evaluation => exact h.evaluation

theorem method (h : C.CouplesInner inner inner') : C.Couples (method inner) (method inner') :=
  (couples_word "DEF").bind fun _ => couples_identifier.bind fun _ =>
    (couples_word "(").bind fun _ => couples_identifier.parenthesized.bind fun _ =>
      h.enclosed.bind fun _ => couples_pure _

theorem program (h : C.CouplesInner inner inner') : C.Couples (program inner) (program inner') := by
  have hend : C.Couples endOfProgram endOfProgram := by
    refine couples_peek_bind fun o p hop => ?_
    cases hop with
    | none => exact couples_pure ()
    | some _ => exact couples_fail (by simp)
  have hfields := h.expression.letBinding.manyFrom "LET"
  have hmethods := h.method.manyFrom "DEF"
  exact hfields.bind fun _ => hmethods.bind fun _ => hend.bind fun _ => couples_pure _

end CouplesInner

/-- Blocks correspond, by induction on the limit of the first run. -/
theorem couples_block {limit limit' : Nat} (h : C.Admits limit limit') (terminator : Pattern) :
    C.Couples (block limit terminator) (block limit' terminator) := by
  induction limit generalizing limit' terminator with
  | zero => exact couples_of_admits_zero h rfl fun hzero => by rw [hzero]; rfl
  | succ limit ih =>
    obtain ⟨n, rfl, hn⟩ := h.pred
    have hinner : C.CouplesInner ⟨expression limit, block limit⟩ ⟨expression n, block n⟩ :=
      ⟨couples_expression hn, ih hn⟩
    refine hinner.statement.many fun t u htoken => ?_
    rw [fits_eq htoken]

theorem couplesInner_innerAt {limit limit' : Nat} (h : C.Admits limit limit') :
    C.CouplesInner (innerAt limit) (innerAt limit') :=
  ⟨couples_expression h, couples_block h⟩

/-- Every rule of the grammar runs alike on inputs that correspond. -/
theorem couples_rule {limit limit' : Nat} (h : C.Admits limit limit') (construct : Construct) :
    C.Couples (construct.rule limit) (construct.rule limit') := by
  have hexpression := couples_expression h
  have hinner := couplesInner_innerAt h
  cases construct with
  | program => exact hinner.program.map _
  | field => exact hexpression.letBinding.map _
  | method => exact hinner.method.map _
  | statement => exact hinner.statement.map _
  | declaration => exact hinner.declaration.map _
  | conditional => exact hinner.conditional.map _
  | forEach => exact hinner.forEach.map _
  | whileLoop => exact hinner.whileLoop.map _
  | result => exact hinner.result.map _
  | expression => exact hexpression.map _
  | logical => exact hexpression.logical.map _
  | equality => exact hexpression.equality.map _
  | additive => exact hexpression.additive.map _
  | multiplicative => exact hexpression.multiplicative.map _
  | secondary => exact hexpression.secondary.map _
  | primary => exact hexpression.primary.map _

end Coupling

end LetDef
