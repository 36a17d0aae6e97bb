import LetDef.Proofs.Grammar.Completeness

/-!
# Accounts of runs along a token list

Most of what a fault says is about the token that is next, and can be checked where the fault is
raised.  But a missing parenthesis also says that one has been opened before, and a comma is only
trailing if it has just been read: such a fault speaks of the whole way from where the rule has
started.  So the runs of a rule are followed here along one token list, a `Passage`, with conditions
on the places where a rule starts and stops (`Passage.Accounts`).  Where a rule fails instead, it
owes an account: the fault is placed and described truthfully (`Passage.Truthful`).

The condition that carries the parentheses is `Passage.Open`, the number of those that are open.
Tokens that are spelled well are needed for it, since any other literal could be a parenthesis.
-/

namespace LetDef

/-! ## What a fault says -/

/-- The tokens hold more opening parentheses than closing ones. -/
def LeavesOpen (ts : List Token) : Prop :=
  ts.countP (fun t => t.literal = ")") < ts.countP (fun t => t.literal = "(")

/-- What a cause says of the tokens that a rule has read and of the token that is next, if there is
one.  Faults of a text are not for rules to report. -/
def Cause.Describes (read : List Token) (next : Option Token) : Cause → Prop
  | missingSemicolon => ∀ t ∈ next, t.literal ≠ ";"
  | missingIdentifier =>
    (∃ t ∈ read.getLast?, t.literal = ".") ∧ ∀ t ∈ next, t.kind ≠ .identifier
  | trailingComma => (∃ t ∈ read.getLast?, t.literal = ",") ∧ ∃ t ∈ next, t.literal = ")"
  | missingClosingParen => (∀ t ∈ next, t.literal ≠ ")") ∧ LeavesOpen read
  | invalidPrimaryExpression => ∀ t ∈ next, t.kind = .operator ∧ t.literal ≠ "("
  | expected what =>
    (what = "an identifier" ∧ (∀ t ∈ next, t.kind ≠ .identifier) ∨
      ∃ text, what = "`" ++ text ++ "`" ∧ ∀ t ∈ next, t.literal ≠ text) ∧
    (what = "`END`" → next = none)
  | malformedLiteral => ∃ t ∈ read.getLast?, Grammar.Opening.ofToken t = .malformed
  | recursionLimit => True
  | illegalSingleQuote | missingCharacter | unterminatedCharacter | doubleQuoteInString
  | unterminatedString | invalidEscape | endOfInput => False

/-! ## Passages -/

/-- A token list, and where in it a rule starts. -/
structure Passage where
  tokens : List Token
  start : Nat

namespace Passage

variable (p : Passage)

/-- What is ahead at a place. -/
def input (i : Nat) : TokenInput := (TokenInput.ofList p.tokens).advanceBy i

/-- The token that is next at a place. -/
def next (i : Nat) : Option Token := p.tokens[i]?

/-- What has been read between the start and a place. -/
def read (i : Nat) : List Token := (p.tokens.take i).drop p.start

/-- All tokens are spelled as words of their kinds are. -/
def Spelled : Prop := ∀ t ∈ p.tokens, t.WellSpelled

/-- The fault says the truth about where it is noticed, and is placed there, or at the token that
has been read last if that is malformed. -/
structure Truthful (fault : Fault) (i : Nat) : Prop where
  ahead : fault.cause ≠ .malformedLiteral → fault.offset = (p.input i).nextOffset
  behind : fault.cause = .malformedLiteral →
    ∃ k t, i = k + 1 ∧ p.start ≤ k ∧ p.next k = some t ∧ fault.offset = t.offset
  describes : p.Spelled → fault.cause.Describes (p.read i) (p.next i)

/-- A condition on a place. -/
abbrev Place : Type := Nat → Prop

/-- A run that has started at the place `i` stops at a place with the property, or fails with a
truthful fault. -/
def Account {α : Type} (Q : α → Place) (i : Nat) : EStateM.Result Fault TokenInput α → Prop
  | .ok a output => ∃ j, i ≤ j ∧ j ≤ p.tokens.length ∧ output = p.input j ∧ Q a j
  | .error fault output =>
    ∃ j, i ≤ j ∧ j ≤ p.tokens.length ∧ output = p.input j ∧ p.Truthful fault j

/-- Where the rule starts at a place with the first property, it stops at one with the second
property, or fails with a truthful fault. -/
def Accounts {α : Type} (P : Place) (r : Rule α) (Q : α → Place) : Prop :=
  ∀ i, p.start ≤ i → i ≤ p.tokens.length → P i → p.Account Q i (r (p.input i))

/-- The place is behind the token `t`, which stands at a place with the property. -/
def After (P : Place) (t : Token) : Place := fun j =>
  ∃ i, j = i + 1 ∧ p.start ≤ i ∧ p.next i = some t ∧ P i

/-- So many of the parentheses that have been opened since the start have not been closed. -/
def Open (depth : Nat) : Place := fun i => p.Spelled →
  (p.read i).countP (fun t => t.literal = "(") =
    (p.read i).countP (fun t => t.literal = ")") + depth

variable {p} {α β : Type} {P P' : Place} {i j depth : Nat} {t : Token}

/-! ### Places -/

lemma ahead_input (i : Nat) : (p.input i).ahead = p.tokens.drop i := rfl

lemma head?_input (i : Nat) : (p.input i).ahead.head? = p.next i :=
  List.head?_drop

/-- To take a token away is to go one place on. -/
lemma advance_input (i : Nat) : (p.input i).advance = p.input (i + 1) := by
  simp [input, TokenInput.advance, TokenInput.advanceBy, List.drop_drop]

lemma lt_length_of_next (h : p.next i = some t) : i < p.tokens.length :=
  (List.getElem?_eq_some_iff.1 h).1

lemma input_of_next (h : p.next i = some t) :
    p.input i = ⟨t :: (p.input (i + 1)).ahead, (p.input (i + 1)).endOffset⟩ := by
  have hdrop : p.tokens.drop i = t :: p.tokens.drop (i + 1) := by
    rw [List.drop_eq_getElem_cons (lt_length_of_next h)]
    exact congrArg (· :: _) (List.getElem?_eq_some_iff.1 h).2
  rw [ahead_input, ← hdrop]
  rfl

lemma read_succ (hstart : p.start ≤ i) (h : p.next i = some t) :
    p.read (i + 1) = p.read i ++ [t] := by
  have hlt := lt_length_of_next h
  have hle : p.start ≤ (p.tokens.take i).length := by
    rw [List.length_take]
    omega
  rw [read, List.take_add_one, show p.tokens[i]? = some t from h, Option.toList_some,
    List.drop_append_of_le_length hle]
  rfl

/-- Behind a token, this token is the last one that has been read. -/
lemma getLast?_read (h : p.After P t j) : (p.read j).getLast? = some t := by
  obtain ⟨i, rfl, hstart, ht, -⟩ := h
  rw [read_succ hstart ht, List.getLast?_concat]

lemma Spelled.wellSpelled (h : p.Spelled) (ht : p.next i = some t) : t.WellSpelled :=
  h t (List.mem_of_getElem? ht)

lemma After.mono (h : p.After P t j) (himp : ∀ i, P i → P' i) : p.After P' t j := by
  obtain ⟨i, rfl, hstart, ht, hp⟩ := h
  exact ⟨i, rfl, hstart, ht, himp i hp⟩

/-- At the start no parenthesis is open. -/
lemma open_start : p.Open 0 p.start := by
  intro _
  simp [read, List.drop_eq_nil_of_le]

/-- A token that is no parenthesis leaves as many open as there are. -/
lemma open_of_neutral (h : p.After (p.Open depth) t j)
    (hneutral : t.WellSpelled → t.literal ≠ "(" ∧ t.literal ≠ ")") : p.Open depth j := by
  obtain ⟨i, rfl, hstart, ht, hopen⟩ := h
  intro hspelled
  obtain ⟨hleft, hright⟩ := hneutral (hspelled.wellSpelled ht)
  simpa [read_succ hstart ht, hleft, hright] using hopen hspelled

/-- A name is no parenthesis. -/
lemma neutral_of_identifier (hkind : t.kind = .identifier) (ht : t.WellSpelled) :
    t.literal ≠ "(" ∧ t.literal ≠ ")" := by
  constructor <;> intro hparen <;>
    simp [ht.kind_of_mark (show t.literal ∈ ["(", ")", ";"] by simp [hparen])] at hkind

/-- Behind an opening parenthesis one more is open. -/
lemma open_of_left (h : p.After (p.Open depth) t j) (hleft : t.literal = "(") :
    p.Open (depth + 1) j := by
  obtain ⟨i, rfl, hstart, ht, hopen⟩ := h
  intro hspelled
  simp [read_succ hstart ht, hleft, hopen hspelled, Nat.add_assoc]

/-- Behind a closing parenthesis one less is open. -/
lemma open_of_right (h : p.After (p.Open (depth + 1)) t j) (hright : t.literal = ")") :
    p.Open depth j := by
  obtain ⟨i, rfl, hstart, ht, hopen⟩ := h
  intro hspelled
  simp [read_succ hstart ht, hright, hopen hspelled, Nat.add_right_comm, Nat.add_assoc]

/-- Where one is open, a parenthesis has been opened and not been closed. -/
lemma leavesOpen_of_open (h : p.Open (depth + 1) i) (hspelled : p.Spelled) :
    LeavesOpen (p.read i) := by
  rw [LeavesOpen, h hspelled]
  omega

/-! ### Sequencing -/

lemma Account.mono {Q Q' : α → Place} {res : EStateM.Result Fault TokenInput α}
    (h : p.Account Q j res) (hle : i ≤ j) (himp : ∀ a k, Q a k → Q' a k) :
    p.Account Q' i res := by
  cases res with
  | ok a output =>
    obtain ⟨k, hjk, hk, houtput, hq⟩ := h
    exact ⟨k, hle.trans hjk, hk, houtput, himp a k hq⟩
  | error fault output =>
    obtain ⟨k, hjk, hk, houtput, htruthful⟩ := h
    exact ⟨k, hle.trans hjk, hk, houtput, htruthful⟩

/-- Two runs, the second one from where the first has stopped. -/
lemma Account.bind {r : Rule α} {f : α → Rule β} {Q : α → Place} {R : β → Place}
    {input : TokenInput} (h : p.Account Q i (r input))
    (hf : ∀ a j, r input = .ok a (p.input j) → i ≤ j → j ≤ p.tokens.length → Q a j →
      p.Account R j (f a (p.input j))) :
    p.Account R i ((r >>= f) input) := by
  cases hres : r input with
  | ok a output =>
    rw [hres] at h
    obtain ⟨j, hij, hj, rfl, hq⟩ := h
    rw [Rule.bind_of_ok hres]
    exact (hf a j hres hij hj hq).mono hij fun _ _ => id
  | error fault output =>
    rw [hres] at h
    rw [Rule.bind_of_error hres]
    exact h

namespace Accounts

variable {r : Rule α} {f : α → Rule β} {Q Q' : α → Place} {R : β → Place}

lemma mono (h : p.Accounts P r Q) (hpre : ∀ i, P' i → P i) (hpost : ∀ a i, Q a i → Q' a i) :
    p.Accounts P' r Q' :=
  fun i hstart hlength hp => (h i hstart hlength (hpre i hp)).mono le_rfl hpost

lemma pre (h : p.Accounts P r Q) (hpre : ∀ i, P' i → P i) : p.Accounts P' r Q :=
  h.mono hpre fun _ _ => id

lemma post (h : p.Accounts P r Q) (hpost : ∀ a i, Q a i → Q' a i) : p.Accounts P r Q' :=
  h.mono (fun _ => id) hpost

lemma pure (a : α) (h : ∀ i, P i → Q a i) : p.Accounts P (Pure.pure a) Q :=
  fun i _ hlength hp => ⟨i, le_rfl, hlength, rfl, h i hp⟩

/-- What holds of the second rule where the first one has stopped holds of both of them together. -/
lemma bind (hr : p.Accounts P r Q) (hf : ∀ a, p.Accounts (Q a) (f a) R) :
    p.Accounts P (r >>= f) R :=
  fun i hstart hlength hp => (hr i hstart hlength hp).bind fun a j _ hij hj hq =>
    hf a j (hstart.trans hij) hj hq

lemma map (h : p.Accounts P r fun _ => P') (g : α → β) : p.Accounts P (g <$> r) fun _ => P' := by
  rw [Rule.map_eq_bind]
  exact h.bind fun a => pure (g a) fun _ => id

/-- A fault at the token ahead. -/
lemma fail {cause : Cause} (hcause : cause ≠ .malformedLiteral)
    (h : ∀ i, P i → p.Spelled → cause.Describes (p.read i) (p.next i)) :
    p.Accounts P (Rule.fail cause) Q :=
  fun i _ hlength hp => ⟨i, le_rfl, hlength, rfl, fun _ => rfl, fun hm => absurd hm hcause, h i hp⟩

end Accounts

/-! ### Single tokens -/

lemma accounts_peek : p.Accounts P Rule.peek fun o j => p.next j = o ∧ P j :=
  fun i _ hlength hp => ⟨i, le_rfl, hlength, rfl, (head?_input i).symm, hp⟩

/-- Behind a token that was ahead, it has been read. -/
lemma accounts_skip :
    p.Accounts (fun i => p.next i = some t ∧ P i) Rule.skip fun _ => p.After P t :=
  fun i hstart _ ⟨hnext, hp⟩ =>
    ⟨i + 1, Nat.le_succ i, lt_length_of_next hnext, advance_input i, i, rfl, hstart, hnext, hp⟩

lemma accounts_next :
    p.Accounts (fun i => p.next i = some t ∧ P i) Rule.next fun _ => p.After P t := by
  rintro i hstart - ⟨hnext, hp⟩
  rw [input_of_next hnext]
  exact ⟨i + 1, Nat.le_succ i, lt_length_of_next hnext, rfl, i, rfl, hstart, hnext, hp⟩

/-- An optional token has been read, or it is not ahead. -/
lemma accounts_optional (pattern : Pattern) :
    p.Accounts P (Rule.optional pattern) fun o j =>
      match o with
      | some t => pattern.fits t ∧ p.After P t j
      | none => (∀ t ∈ p.next j, ¬ pattern.fits t) ∧ P j := by
  intro i hstart hlength hp
  by_cases hfits : ∀ t ∈ p.next i, ¬ pattern.fits t
  · rw [← head?_input] at hfits
    have hnone : Rule.optional pattern (p.input i) = .ok none (p.input i) :=
      Rule.optional_reads_nil hfits (p.input i).endOffset
    rw [head?_input] at hfits
    rw [hnone]
    exact ⟨i, le_rfl, hlength, rfl, hfits, hp⟩
  · simp only [not_forall, not_not] at hfits
    obtain ⟨t, ht, hfits⟩ := hfits
    have hsome : Rule.optional pattern (p.input i) = .ok (some t) (p.input (i + 1)) := by
      rw [input_of_next ht]
      exact Rule.optional_reads hfits _ _
    rw [hsome]
    exact ⟨i + 1, Nat.le_succ i, lt_length_of_next ht, rfl, hfits, i, rfl, hstart, ht, hp⟩

/-- Where no token that fits is ahead, the fault has to be true of the place. -/
lemma accounts_expect {pattern : Pattern} {cause : Cause} (hcause : cause ≠ .malformedLiteral)
    (h : ∀ i, P i → (∀ t ∈ p.next i, ¬ pattern.fits t) → p.Spelled →
      cause.Describes (p.read i) (p.next i)) :
    p.Accounts P (Rule.expect pattern cause) fun t j => pattern.fits t ∧ p.After P t j := by
  refine (accounts_optional pattern).bind fun o => ?_
  cases o with
  | none => exact .fail hcause fun i hi => h i hi.2 hi.1
  | some t => exact .pure t fun _ => id

/-- A word is read, or missed truthfully.  Where `END` is due, nothing else may stand. -/
lemma accounts_word {text : String}
    (hend : text = "END" → ∀ i, P i → ∀ t ∈ p.next i, t.literal = "END") :
    p.Accounts P (Rule.word text) fun _ j => ∃ t, t.literal = text ∧ p.After P t j := by
  have hmissed : ∀ i, P i → (∀ t ∈ p.next i, ¬ (Pattern.literal text).fits t) → p.Spelled →
      (Cause.expected ("`" ++ text ++ "`")).Describes (p.read i) (p.next i) := by
    intro i hp hfits _
    have hother : ∀ t ∈ p.next i, t.literal ≠ text :=
      fun t ht heq => hfits t ht (Rule.fits_literal_iff.2 heq)
    refine ⟨.inr ⟨text, rfl, hother⟩, fun hwhat => Option.eq_none_iff_forall_not_mem.2 ?_⟩
    have hquoted : text.toList ++ ['`'] = "END".toList ++ ['`'] := by
      simpa [String.ext_iff] using hwhat
    obtain rfl : text = "END" := String.toList_injective (List.append_cancel_right hquoted)
    exact fun t ht => hother t ht (hend rfl i hp t ht)
  refine (accounts_expect (by simp) hmissed).bind fun t => .pure () fun j hj => ?_
  exact ⟨t, Rule.fits_literal_iff.1 hj.1, hj.2⟩

/-- Where a name is missing, the fault says so. -/
lemma accounts_identifier :
    p.Accounts P Rule.identifier fun _ j => ∃ t, t.kind = .identifier ∧ p.After P t j := by
  have hmissed : ∀ i, P i → (∀ t ∈ p.next i, ¬ (Pattern.kind .identifier).fits t) → p.Spelled →
      (Cause.expected "an identifier").Describes (p.read i) (p.next i) := by
    intro i _ hfits _
    refine ⟨.inl ⟨rfl, fun t ht heq => hfits t ht (Rule.fits_kind_iff.2 heq)⟩, fun hwhat => ?_⟩
    simp at hwhat
  refine (accounts_expect (by simp) hmissed).bind fun t => .pure t.literal fun j hj => ?_
  exact ⟨t, Rule.fits_kind_iff.1 hj.1, hj.2⟩

lemma accounts_semicolon :
    p.Accounts P Rule.semicolon fun _ j => ∃ t, t.literal = ";" ∧ p.After P t j := by
  have hmissed : ∀ i, P i → (∀ t ∈ p.next i, ¬ (Pattern.literal ";").fits t) → p.Spelled →
      Cause.missingSemicolon.Describes (p.read i) (p.next i) :=
    fun i _ hfits _ t ht heq => hfits t ht (Rule.fits_literal_iff.2 heq)
  refine (accounts_expect (by simp) hmissed).bind fun t => .pure () fun j hj => ?_
  exact ⟨t, Rule.fits_literal_iff.1 hj.1, hj.2⟩

/-- A closing parenthesis closes what was open, and where it is missing something is open. -/
lemma accounts_closingParen :
    p.Accounts (p.Open (depth + 1)) Rule.closingParen fun _ => p.Open depth := by
  have hmissed : ∀ i, p.Open (depth + 1) i → (∀ t ∈ p.next i, ¬ (Pattern.literal ")").fits t) →
      p.Spelled → Cause.missingClosingParen.Describes (p.read i) (p.next i) :=
    fun i hopen hfits hspelled => ⟨fun t ht heq => hfits t ht (Rule.fits_literal_iff.2 heq),
      leavesOpen_of_open hopen hspelled⟩
  refine (accounts_expect (by simp) hmissed).bind fun t => .pure () fun j hj => ?_
  exact open_of_right hj.2 (Rule.fits_literal_iff.1 hj.1)

/-! ### Choices by the token ahead -/

lemma accounts_found (text : String) :
    p.Accounts P (Rule.found text) fun b j =>
      if b then ∃ t, t.literal = text ∧ p.After P t j
      else (∀ t ∈ p.next j, t.literal ≠ text) ∧ P j := by
  refine (accounts_optional _).bind fun o => .pure o.isSome fun j hj => ?_
  cases o with
  | none => exact ⟨fun t ht heq => hj.1 t ht (Rule.fits_literal_iff.2 heq), hj.2⟩
  | some t => exact ⟨t, Rule.fits_literal_iff.1 hj.1, hj.2⟩

lemma accounts_sees (text : String) :
    p.Accounts P (Rule.sees text) fun b j =>
      (if b then ∃ t ∈ p.next j, t.literal = text else ∀ t ∈ p.next j, t.literal ≠ text) ∧
        P j := by
  intro i _ hlength hp
  rw [Rule.sees_eq, head?_input]
  refine ⟨i, le_rfl, hlength, rfl, ?_, hp⟩
  cases p.next i with
  | none => simp
  | some t => by_cases ht : t.literal = text <;> simp [ht]

/-- What is introduced by a word comes behind the word; without it the place stays. -/
lemma accounts_introduced {text : String} {item : Rule α} {R : Place}
    (hitem : p.Accounts (fun j => ∃ t, t.literal = text ∧ p.After P t j) item fun _ => R)
    (hnone : ∀ j, (∀ t ∈ p.next j, t.literal ≠ text) → P j → R j) :
    p.Accounts P (Rule.introduced text item) fun _ => R := by
  refine (accounts_found text).bind fun b => ?_
  cases b with
  | true => exact (hitem.pre fun j hj => by simpa using hj).bind fun a => .pure _ fun _ => id
  | false =>
    refine .pure none fun j hj => ?_
    rw [if_neg Bool.false_ne_true] at hj
    exact hnone j hj.1 hj.2

lemma accounts_unlessSeen {text : String} {item : Rule α} (hitem : p.Accounts P item fun _ => P) :
    p.Accounts P (Rule.unlessSeen text item) fun _ => P := by
  refine (accounts_sees text).bind fun b => ?_
  cases b with
  | true => exact .pure none fun _ hj => hj.2
  | false => exact (hitem.pre fun _ hj => hj.2).bind fun a => .pure _ fun _ => id

/-! ### Repetition -/

/-- A repetition keeps what its rule keeps.  It stops before a token that does not ask for another
round, if the rule always reads something. -/
theorem accounts_many {continues : Token → Bool} {item : Rule α}
    (hitem : ∀ t, continues t → p.Accounts (fun i => p.next i = some t ∧ P i) item fun _ => P) :
    p.Accounts P (Rule.many continues item) fun _ j =>
      (item.Yields (fun ts _ => ts ≠ []) → ∀ t ∈ p.next j, ¬ continues t) ∧ P j := by
  intro i hstart hlength hp
  induction hn : p.tokens.length - i using Nat.strongRecOn generalizing i with
  | ind n ih =>
    by_cases hhead : (p.input i).ahead.head?.any continues
    · rw [Rule.many_eq_bind hhead]
      rw [head?_input] at hhead
      obtain ⟨t, ht, hcontinues⟩ := (Option.any_eq_true _ _).1 hhead
      refine (hitem t hcontinues i hstart hlength ⟨ht, hp⟩).bind fun a j hres hij hj hq => ?_
      rw [Rule.furtherRounds, ahead_input, ahead_input, List.length_drop, List.length_drop]
      split
      · next hlt =>
        have hrest := ih _ (by omega) j (hstart.trans hij) hj hq rfl
        exact hrest.bind fun as k _ _ hk hpost => ⟨k, le_rfl, hk, rfl, hpost⟩
      · next hlt =>
        -- The round has read nothing, which a rule that always reads something does not do.
        obtain rfl : i = j := by omega
        refine ⟨i, le_rfl, hlength, rfl, fun hyields => ?_, hq⟩
        obtain ⟨ts, hahead, -, hne⟩ := hyields _ _ _ hres
        exact absurd (List.self_eq_append_left.1 hahead) hne
    · rw [Rule.many_eq_of_not item hhead]
      rw [head?_input] at hhead
      refine ⟨i, le_rfl, hlength, rfl, fun _ t ht hcontinues => hhead ?_, hp⟩
      rw [Option.mem_def.1 ht]
      exact hcontinues

/-! ### Rules that close what they open -/

/-- The rule leaves as many parentheses open as it has found. -/
def Balanced (p : Passage) (r : Rule α) : Prop :=
  ∀ depth, p.Accounts (p.Open depth) r fun _ => p.Open depth

namespace Balanced

variable {r : Rule α} {f : α → Rule β} {item : Rule α}

lemma pure (a : α) : p.Balanced (Pure.pure a) :=
  fun _ => .pure a fun _ => id

lemma bind (hr : p.Balanced r) (hf : ∀ a, p.Balanced (f a)) : p.Balanced (r >>= f) :=
  fun depth => (hr depth).bind fun a => hf a depth

lemma map (h : p.Balanced r) (g : α → β) : p.Balanced (g <$> r) :=
  fun depth => (h depth).map g

/-- A rule that has used up its limit says so. -/
lemma atLimit {r : Rule α} (h : ∀ input, r input = Rule.fail .recursionLimit input) :
    p.Balanced r := by
  obtain rfl : r = Rule.fail .recursionLimit := funext h
  exact fun _ => .fail (by simp) fun _ _ _ => trivial

lemma identifier : p.Balanced Rule.identifier := by
  intro depth
  refine accounts_identifier.post ?_
  rintro _ j ⟨t, hkind, hafter⟩
  exact open_of_neutral hafter (neutral_of_identifier hkind)

/-- A word that is no parenthesis changes nothing about what is open. -/
lemma word {text : String} (htext : text ∉ ["END", "(", ")"]) : p.Balanced (Rule.word text) := by
  simp only [List.mem_cons, List.not_mem_nil, or_false, not_or] at htext
  obtain ⟨hend, hleft, hright⟩ := htext
  intro depth
  refine (accounts_word fun h => absurd h hend).post ?_
  rintro _ j ⟨t, rfl, hafter⟩
  exact open_of_neutral hafter fun _ => ⟨hleft, hright⟩

lemma semicolon : p.Balanced Rule.semicolon := by
  intro depth
  refine accounts_semicolon.post ?_
  rintro _ j ⟨t, ht, hafter⟩
  exact open_of_neutral hafter fun _ => by simp [ht]

lemma introduced {text : String} (htext : text ∉ ["(", ")"]) (h : p.Balanced item) :
    p.Balanced (Rule.introduced text item) := by
  simp only [List.mem_cons, List.not_mem_nil, or_false, not_or] at htext
  intro depth
  refine accounts_introduced ((h depth).pre ?_) fun _ _ => id
  rintro j ⟨t, rfl, hafter⟩
  exact open_of_neutral hafter fun _ => htext

lemma unlessSeen (h : p.Balanced item) (text : String) : p.Balanced (Rule.unlessSeen text item) :=
  fun depth => accounts_unlessSeen (h depth)

/-- Rounds that are balanced are so together. -/
lemma many {continues : Token → Bool} (h : p.Balanced item) :
    p.Balanced (Rule.many continues item) :=
  fun depth => (accounts_many fun _ _ => (h depth).pre fun _ => And.right).post fun _ _ => And.right

/-- The comma has just been read where a closing parenthesis makes it a trailing one. -/
lemma manyFrom_further (h : p.Balanced item) :
    p.Balanced (Rule.manyFrom "," (Rule.further item)) := by
  intro depth
  refine (accounts_many fun comma hcomma => ?_).post fun _ _ => And.right
  have hliteral := Rule.fits_literal_iff.1 hcomma
  refine accounts_skip.bind fun _ => ?_
  refine (accounts_sees ")").bind fun b => ?_
  cases b with
  | true =>
    refine .fail (by simp) fun j hj _ => ?_
    exact ⟨⟨comma, getLast?_read hj.2, hliteral⟩, by simpa using hj.1⟩
  | false =>
    refine (h depth).pre fun j hj => ?_
    exact open_of_neutral hj.2 fun _ => by simp [hliteral]

/-- A list in parentheses closes the one that has been opened before. -/
lemma parenthesized (h : p.Balanced item) (depth : Nat) :
    p.Accounts (p.Open (depth + 1)) (Rule.parenthesized item) fun _ => p.Open depth := by
  refine (accounts_found ")").bind fun b => ?_
  cases b with
  | true =>
    refine .pure [] fun j hj => ?_
    obtain ⟨t, ht, hafter⟩ := by simpa using hj
    exact open_of_right hafter ht
  | false =>
    have hitems : p.Balanced (Rule.commaSeparated item) :=
      h.bind fun first => h.manyFrom_further.bind fun rest => .pure _
    refine ((hitems (depth + 1)).pre fun j hj => hj.2).bind fun items => ?_
    exact accounts_closingParen.bind fun _ => .pure items fun _ => id

/-- A list of arguments, or none. -/
lemma arguments (h : p.Balanced item) :
    p.Balanced (Rule.introduced "(" (Rule.parenthesized item)) := by
  intro depth
  refine accounts_introduced ((h.parenthesized depth).pre ?_) fun _ _ => id
  rintro j ⟨t, ht, hafter⟩
  exact open_of_left hafter ht

end Balanced

end Passage

end LetDef
