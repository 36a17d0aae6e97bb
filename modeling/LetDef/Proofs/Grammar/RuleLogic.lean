import LetDef.Grammar.Rule
import LetDef.Proofs.Grammar.Derivation

/-!
# Reasoning about rules

Two notions describe what a rule does with the tokens ahead, one for each direction.

* `Rule.Yields r P`: where the rule succeeds, it has read tokens `ts` and answers `a` with `P ts a`.
* `Rule.Reads r ts a rest`: where the tokens `ts` are ahead and `rest` after them, the rule reads
  `ts` and answers `a`.

Both are kept by sequencing (`Yields.bind`, `Reads.bind`), so the lemmas below, one for each way of
building rules, carry them from the parts of a rule to the whole of it.  Rules that look at the
token ahead before they choose what to do are opened with equations instead.
-/

namespace LetDef.Rule

variable {α β : Type}

/-! ## Sequencing -/

/-- A sequence succeeds if both parts do, the second one where the first has stopped. -/
lemma bind_eq_ok_iff {r : Rule α} {f : α → Rule β} {input output : TokenInput} {b : β} :
    (r >>= f) input = .ok b output ↔
      ∃ a mid, r input = .ok a mid ∧ f a mid = .ok b output := by
  change EStateM.bind r f input = .ok b output ↔ _
  unfold EStateM.bind
  cases r input with
  | ok a mid => simp [and_assoc]
  | error fault mid => simp

lemma bind_of_ok {r : Rule α} {f : α → Rule β} {input mid : TokenInput} {a : α}
    (h : r input = .ok a mid) : (r >>= f) input = f a mid := by
  change EStateM.bind r f input = _
  simp only [EStateM.bind, h]

/-- A sequence fails where its first part fails, and the second part is not begun. -/
lemma bind_of_error {r : Rule α} {f : α → Rule β} {input rest : TokenInput}
    {fault : Fault} (h : r input = .error fault rest) : (r >>= f) input = .error fault rest := by
  change EStateM.bind r f input = _
  simp only [EStateM.bind, h]

lemma pure_eq_ok_iff {a b : α} {input output : TokenInput} :
    (pure a : Rule α) input = .ok b output ↔ a = b ∧ input = output := by
  change EStateM.Result.ok a input = .ok b output ↔ _
  simp

/-- Changing the answer of a rule is a sequence too, so that nothing else has to be known of it. -/
lemma map_eq_bind (f : α → β) (r : Rule α) : f <$> r = r >>= fun a => pure (f a) := by
  funext input
  change EStateM.map f r input = EStateM.bind r (fun a => EStateM.pure (f a)) input
  unfold EStateM.map EStateM.bind
  cases r input <;> rfl

/-! ## What a rule yields -/

/-- Where the rule succeeds, it has read tokens that have the property together with its answer. -/
def Yields (r : Rule α) (P : List Token → α → Prop) : Prop :=
  ∀ input a output, r input = .ok a output →
    ∃ ts, input.ahead = ts ++ output.ahead ∧ output.endOffset = input.endOffset ∧ P ts a

namespace Yields

variable {P P' : List Token → α → Prop} {Q : List Token → β → Prop}

lemma mono {r : Rule α} (h : r.Yields P) (himp : ∀ ts a, P ts a → P' ts a) : r.Yields P' := by
  intro input a output hr
  obtain ⟨ts, hahead, hend, hp⟩ := h input a output hr
  exact ⟨ts, hahead, hend, himp ts a hp⟩

lemma pure (a : α) : Yields (Pure.pure a) fun ts b => ts = [] ∧ b = a := by
  intro input b output h
  obtain ⟨rfl, rfl⟩ := pure_eq_ok_iff.1 h
  exact ⟨[], rfl, rfl, rfl, rfl⟩

/-- A sequence yields what its parts yield, one after the other. -/
lemma bind {r : Rule α} {f : α → Rule β} {R : α → List Token → β → Prop} (hr : r.Yields P)
    (hf : ∀ a, (f a).Yields (R a)) :
    (r >>= f).Yields fun ts b => ∃ us vs a, ts = us ++ vs ∧ P us a ∧ R a vs b := by
  intro input b output h
  obtain ⟨a, mid, hra, hfb⟩ := bind_eq_ok_iff.1 h
  obtain ⟨us, hahead, hend, hp⟩ := hr input a mid hra
  obtain ⟨vs, hahead', hend', hq⟩ := hf a mid b output hfb
  refine ⟨us ++ vs, ?_, hend'.trans hend, us, vs, a, rfl, hp, hq⟩
  rw [hahead, hahead', List.append_assoc]

/-- The first step of a rule that has succeeded, and the success of what comes after it. -/
lemma step {r : Rule α} {f : α → Rule β} {input output : TokenInput} {b : β} (hr : r.Yields P)
    (h : (r >>= f) input = .ok b output) :
    ∃ ts a mid, input.ahead = ts ++ mid.ahead ∧ mid.endOffset = input.endOffset ∧ P ts a ∧
      f a mid = .ok b output := by
  obtain ⟨a, mid, hra, hfb⟩ := bind_eq_ok_iff.1 h
  obtain ⟨ts, hahead, hend, hp⟩ := hr input a mid hra
  exact ⟨ts, a, mid, hahead, hend, hp, hfb⟩

/-- A rule followed by an answer made from its own. -/
lemma map {r : Rule α} {f : α → β} (hr : r.Yields P) (hf : ∀ ts a, P ts a → Q ts (f a)) :
    (r >>= fun a => Pure.pure (f a)).Yields Q := by
  refine (hr.bind fun a => pure (f a)).mono ?_
  rintro _ _ ⟨us, _, a, rfl, hp, rfl, rfl⟩
  rw [List.append_nil]
  exact hf us a hp

lemma fail (cause : Cause) (P : List Token → α → Prop) : (Rule.fail cause).Yields P := by
  intro input a output h
  simp [Rule.fail] at h

end Yields

/-! ## What a rule reads -/

/-- Where the tokens `ts` are ahead and `rest` after them, the rule reads `ts` and answers `a`. -/
def Reads (r : Rule α) (ts : List Token) (a : α) (rest : List Token) : Prop :=
  ∀ stop, r ⟨ts ++ rest, stop⟩ = .ok a ⟨rest, stop⟩

namespace Reads

variable {ts us rest : List Token} {a : α} {b : β}

lemma pure (a : α) (rest : List Token) : Reads (Pure.pure a) [] a rest :=
  fun _ => rfl

lemma bind {r : Rule α} {f : α → Rule β} (hr : r.Reads ts a (us ++ rest))
    (hf : (f a).Reads us b rest) : (r >>= f).Reads (ts ++ us) b rest := by
  intro stop
  rw [List.append_assoc, bind_of_ok (hr stop)]
  exact hf stop

/-- A rule followed by an answer made from its own. -/
lemma map {r : Rule α} {f : α → β} (hr : r.Reads ts a rest) :
    (r >>= fun a => Pure.pure (f a)).Reads ts (f a) rest := by
  have h : (r >>= fun a => Pure.pure (f a)).Reads (ts ++ []) (f a) rest :=
    hr.bind (pure (f a) rest)
  rwa [List.append_nil] at h

end Reads

/-! ## Single tokens -/

/-- An optional token has been read or not, and the answer tells which. -/
lemma optional_yields (pattern : Pattern) :
    (optional pattern).Yields fun ts o =>
      ts = [] ∧ o = none ∨ ∃ t, ts = [t] ∧ o = some t ∧ pattern.fits t := by
  intro input o output h
  rcases input with ⟨_ | ⟨t, rest⟩, stop⟩
  · simp only [optional, EStateM.Result.ok.injEq] at h
    obtain ⟨rfl, rfl⟩ := h
    exact ⟨[], rfl, rfl, .inl ⟨rfl, rfl⟩⟩
  · simp only [optional] at h
    split at h
    · next hfits =>
      simp only [EStateM.Result.ok.injEq] at h
      obtain ⟨rfl, rfl⟩ := h
      exact ⟨[t], rfl, rfl, .inr ⟨t, rfl, rfl, hfits⟩⟩
    · simp only [EStateM.Result.ok.injEq] at h
      obtain ⟨rfl, rfl⟩ := h
      exact ⟨[], rfl, rfl, .inl ⟨rfl, rfl⟩⟩

lemma optional_reads {pattern : Pattern} {t : Token} (h : pattern.fits t)
    (rest : List Token) : (optional pattern).Reads [t] (some t) rest := by
  intro stop
  simp [optional, h]

/-- Where the token ahead does not fit, or none is ahead, nothing is read. -/
lemma optional_reads_nil {pattern : Pattern} {rest : List Token}
    (h : ∀ t ∈ rest.head?, ¬ pattern.fits t) : (optional pattern).Reads [] none rest := by
  intro stop
  rcases rest with _ | ⟨t, rest⟩
  · rfl
  · have ht := h t rfl
    simp [optional, ht]

lemma fits_literal_iff {text : String} {t : Token} :
    (Pattern.literal text).fits t ↔ t.literal = text := by
  simp [Pattern.fits]

lemma fits_kind_iff {kind : Token.Kind} {t : Token} :
    (Pattern.kind kind).fits t ↔ t.kind = kind := by
  simp [Pattern.fits]

lemma fits_oneOf_iff {texts : List String} {t : Token} :
    (Pattern.oneOf texts).fits t ↔ t.literal ∈ texts := by
  simp [Pattern.fits]

/-- A rule that expects a token has read one that fits if it succeeds. -/
lemma expect_yields (pattern : Pattern) (cause : Cause) :
    (expect pattern cause).Yields fun ts t => ts = [t] ∧ pattern.fits t := by
  refine ((optional_yields pattern).bind (R := fun o ts t => o = some t ∧ ts = []) ?_).mono ?_
  · rintro (_ | t)
    · exact .fail cause _
    · exact (Yields.pure t).mono fun ts a ⟨hts, ha⟩ => ⟨by rw [ha], hts⟩
  · rintro _ t ⟨us, _, o, rfl, hus, rfl, rfl⟩
    rcases hus with ⟨-, hnone⟩ | ⟨u, rfl, hsome, hfits⟩
    · exact absurd hnone (by simp)
    · obtain rfl := Option.some.inj hsome
      exact ⟨rfl, hfits⟩

lemma expect_reads {pattern : Pattern} {t : Token} (h : pattern.fits t) (cause : Cause)
    (rest : List Token) : (expect pattern cause).Reads [t] t rest := by
  intro stop
  rw [expect, bind_of_ok (optional_reads h rest stop)]
  rfl

/-- The word has been read if the rule for it succeeds. -/
lemma word_yields (text : String) :
    (word text).Yields fun ts _ => ∃ t, ts = [t] ∧ t.literal = text :=
  (expect_yields _ _).map fun _ t ⟨hts, hfits⟩ => ⟨t, hts, fits_literal_iff.1 hfits⟩

/-- A token with the text is read as the word. -/
lemma word_reads {text : String} {t : Token} (h : t.literal = text) (rest : List Token) :
    (word text).Reads [t] () rest :=
  (expect_reads (fits_literal_iff.2 h) _ rest).map

lemma semicolon_yields : semicolon.Yields fun ts _ => ∃ t, ts = [t] ∧ t.literal = ";" :=
  (expect_yields _ _).map fun _ t ⟨hts, hfits⟩ => ⟨t, hts, fits_literal_iff.1 hfits⟩

lemma semicolon_reads {t : Token} (h : t.literal = ";") (rest : List Token) :
    semicolon.Reads [t] () rest :=
  (expect_reads (fits_literal_iff.2 h) _ rest).map

lemma closingParen_yields : closingParen.Yields fun ts _ => ∃ t, ts = [t] ∧ t.literal = ")" :=
  (expect_yields _ _).map fun _ t ⟨hts, hfits⟩ => ⟨t, hts, fits_literal_iff.1 hfits⟩

lemma closingParen_reads {t : Token} (h : t.literal = ")") (rest : List Token) :
    closingParen.Reads [t] () rest :=
  (expect_reads (fits_literal_iff.2 h) _ rest).map

/-- What is read as a name is a name. -/
lemma identifier_yields : identifier.Yields IsName :=
  (expect_yields _ _).map fun _ t ⟨hts, hfits⟩ => ⟨t, hts, fits_kind_iff.1 hfits, rfl⟩

lemma identifier_reads {t : Token} (h : t.kind = .identifier) (rest : List Token) :
    identifier.Reads [t] t.literal rest :=
  (expect_reads (fits_kind_iff.2 h) _ rest).map

/-! ## Choices by the token ahead -/

/-- The answer tells whether a token with the text has been read. -/
lemma found_yields (text : String) :
    (found text).Yields fun ts b =>
      ts = [] ∧ b = false ∨ ∃ t, ts = [t] ∧ t.literal = text ∧ b = true := by
  refine (optional_yields _).map ?_
  rintro _ _ (⟨rfl, rfl⟩ | ⟨t, rfl, rfl, hfits⟩)
  · exact .inl ⟨rfl, rfl⟩
  · exact .inr ⟨t, rfl, fits_literal_iff.1 hfits, rfl⟩

lemma found_reads {text : String} {t : Token} (h : t.literal = text) (rest : List Token) :
    (found text).Reads [t] true rest :=
  (optional_reads (fits_literal_iff.2 h) rest).map

/-- A token with another text ahead is not read. -/
lemma found_reads_nil {text : String} {rest : List Token} (h : StartsOutside [text] rest) :
    (found text).Reads [] false rest := by
  refine (optional_reads_nil fun t ht hfits => ?_).map
  exact h t ht (by simp [fits_literal_iff.1 hfits])

/-- Looking for a text changes nothing, and its answer is about the token ahead. -/
lemma sees_eq (text : String) (input : TokenInput) :
    sees text input = .ok (input.ahead.head?.any fun t => t.literal = text) input := by
  rcases input with ⟨_ | ⟨t, rest⟩, stop⟩
  · rfl
  · simp [sees, TokenInput.peek, TokenInput.peek.go, Pattern.fits]

lemma sees_yields (text : String) : (sees text).Yields fun ts _ => ts = [] := by
  intro input b output h
  rw [sees_eq] at h
  obtain ⟨-, rfl⟩ := EStateM.Result.ok.inj h
  exact ⟨[], rfl, rfl, rfl⟩

lemma sees_reads_true {text : String} {t : Token} {rest : List Token}
    (h : t.literal = text) : (sees text).Reads [] true (t :: rest) := by
  intro stop
  simp [sees_eq, h]

lemma sees_reads_false {text : String} {rest : List Token} (h : StartsOutside [text] rest) :
    (sees text).Reads [] false rest := by
  intro stop
  rcases rest with _ | ⟨t, rest⟩
  · rfl
  · have ht : t.literal ≠ text := by simpa using h t rfl
    simp [sees_eq, ht]

/-- Nothing, or a token with the literal and what the rule reads after it. -/
def Introduced (text : String) (P : List Token → α → Prop) (ts : List Token) (o : Option α) :
    Prop :=
  ts = [] ∧ o = none ∨ ∃ t us a, ts = t :: us ∧ t.literal = text ∧ P us a ∧ o = some a

/-- What has been read is nothing, or the word and what the rule yields. -/
lemma introduced_yields {text : String} {item : Rule α} {P : List Token → α → Prop}
    (h : item.Yields P) : (introduced text item).Yields (Introduced text P) := by
  refine ((found_yields text).bind (R := fun b ts o =>
    if b then ∃ a, P ts a ∧ o = some a else ts = [] ∧ o = none) ?_).mono ?_
  · rintro (_ | _)
    · exact .pure none
    · exact h.map fun ts a hp => ⟨a, hp, rfl⟩
  · rintro _ o ⟨us, vs, b, rfl, ⟨rfl, rfl⟩ | ⟨t, rfl, ht, rfl⟩, hb⟩
    · exact .inl hb
    · obtain ⟨a, hp, rfl⟩ := hb
      exact .inr ⟨t, vs, a, rfl, ht, hp, rfl⟩

/-- Where the word is ahead, it is read, and then what the rule reads. -/
lemma introduced_reads {text : String} {item : Rule α} {t : Token} {ts rest : List Token}
    {a : α} (ht : t.literal = text) (h : item.Reads ts a rest) :
    (introduced text item).Reads (t :: ts) (some a) rest :=
  (found_reads ht (ts ++ rest)).bind h.map

/-- Where the word is not ahead, nothing is read, whatever the rule is. -/
lemma introduced_reads_nil {text : String} (item : Rule α) {rest : List Token}
    (h : StartsOutside [text] rest) : (introduced text item).Reads [] none rest := by
  intro stop
  rw [introduced, liftM_rule, bind_of_ok (found_reads_nil h stop)]
  rfl

/-- What has been read is nothing, or what the rule yields. -/
lemma unlessSeen_yields {text : String} {item : Rule α} {P : List Token → α → Prop}
    (h : item.Yields P) :
    (unlessSeen text item).Yields fun ts o =>
      ts = [] ∧ o = none ∨ ∃ a, P ts a ∧ o = some a := by
  refine ((sees_yields text).bind (R := fun _ ts o =>
    ts = [] ∧ o = none ∨ ∃ a, P ts a ∧ o = some a) ?_).mono ?_
  · rintro (_ | _)
    · exact h.map fun ts a hp => .inr ⟨a, hp, rfl⟩
    · exact (Yields.pure none).mono fun ts o => .inl
  · rintro _ o ⟨_, vs, _, rfl, rfl, ho⟩
    exact ho

/-- Where the word is not ahead, the rule reads what it reads. -/
lemma unlessSeen_reads {text : String} {item : Rule α} {ts rest : List Token} {a : α}
    (hts : StartsOutside [text] (ts ++ rest)) (h : item.Reads ts a rest) :
    (unlessSeen text item).Reads ts (some a) rest :=
  (sees_reads_false hts).bind h.map

lemma unlessSeen_reads_nil {text : String} (item : Rule α) {t : Token} (rest : List Token)
    (h : t.literal = text) : (unlessSeen text item).Reads [] none (t :: rest) := by
  intro stop
  rw [unlessSeen, liftM_rule, bind_of_ok (sees_reads_true h stop)]
  rfl

/-! ## Repetition -/

/-- What is left to do in a repetition after a round that has answered `a`; before that round `n`
tokens were ahead. -/
def furtherRounds (continues : Token → Bool) (item : Rule α) (n : Nat) (a : α) :
    Rule (List α) := fun rest =>
  if rest.ahead.length < n then (many continues item >>= fun as => pure (a :: as)) rest
  else .ok [a] rest

/-- Where the token ahead asks for it, a repetition is a round and then the rounds after it. -/
lemma many_eq_bind {continues : Token → Bool} {item : Rule α} {input : TokenInput}
    (hhead : input.ahead.head?.any continues) :
    many continues item input =
      (item >>= furtherRounds continues item input.ahead.length) input := by
  have hmany : many continues item = repeatWhile (fun input => input) continues item := rfl
  rw [hmany, repeatWhile, if_pos hhead]
  cases hr : item input with
  | error fault rest => rw [bind_of_error hr]
  | ok a rest =>
    rw [bind_of_ok hr, furtherRounds, hmany]
    simp only
    split
    · cases hrest : repeatWhile (fun input => input) continues item rest with
      | ok as last => rw [bind_of_ok hrest]; rfl
      | error fault last => rw [bind_of_error hrest]
    · rfl

/-- Elsewhere it is over. -/
lemma many_eq_of_not {continues : Token → Bool} (item : Rule α) {input : TokenInput}
    (hhead : ¬ input.ahead.head?.any continues) : many continues item input = .ok [] input := by
  show repeatWhile (fun input => input) continues item input = _
  rw [repeatWhile, if_neg hhead]

/-- A repetition yields a sequence of what its rule yields, provided that the rule always reads
something. -/
theorem many_yields (continues : Token → Bool) {item : Rule α} {P : List Token → α → Prop}
    (h : item.Yields P) (hne : ∀ ts a, P ts a → ts ≠ []) :
    (many continues item).Yields
      (Sequence fun ts a => P ts a ∧ ∀ t ∈ ts.head?, continues t) := by
  intro input as output hr
  induction hn : input.ahead.length using Nat.strongRecOn generalizing input as with
  | ind n ih =>
    by_cases hhead : input.ahead.head?.any continues
    · rw [many_eq_bind hhead] at hr
      obtain ⟨ts, a, mid, hahead, hend, hp, hr⟩ := h.step hr
      have hts := hne ts a hp
      have hcontinues : ∀ t ∈ ts.head?, continues t := by
        obtain ⟨t, ts, rfl⟩ := List.exists_cons_of_ne_nil hts
        simpa [hahead] using hhead
      have hlt : mid.ahead.length < input.ahead.length := by
        have hpos := List.length_pos_iff.2 hts
        rw [hahead, List.length_append]
        omega
      rw [furtherRounds, if_pos hlt] at hr
      obtain ⟨bs, rest, hrest, hr⟩ := bind_eq_ok_iff.1 hr
      obtain ⟨rfl, rfl⟩ := pure_eq_ok_iff.1 hr
      obtain ⟨us, hahead', hend', hseq⟩ := ih _ (hn ▸ hlt) mid bs hrest rfl
      refine ⟨ts ++ us, ?_, hend'.trans hend, .cons ⟨hp, hcontinues⟩ hseq⟩
      rw [hahead, hahead', List.append_assoc]
    · rw [many_eq_of_not item hhead] at hr
      obtain ⟨rfl, rfl⟩ := EStateM.Result.ok.inj hr
      exact ⟨[], rfl, rfl, .nil⟩

lemma many_reads_nil {continues : Token → Bool} (item : Rule α) {rest : List Token}
    (h : ∀ t ∈ rest.head?, ¬ continues t) : (many continues item).Reads [] [] rest := by
  intro stop
  refine many_eq_of_not item ?_
  rcases rest with _ | ⟨t, rest⟩
  · simp
  · simpa using h t rfl

/-- A round that reads something, and the rounds after it. -/
lemma many_reads_cons {continues : Token → Bool} {item : Rule α} {t : Token}
    {ts us rest : List Token} {a : α} {as : List α} (ht : continues t)
    (h : item.Reads (t :: ts) a (us ++ rest)) (hs : (many continues item).Reads us as rest) :
    (many continues item).Reads (t :: ts ++ us) (a :: as) rest := by
  intro stop
  have hitem := h stop
  rw [← List.append_assoc] at hitem
  have hlt : (us ++ rest).length < (t :: ts ++ us ++ rest).length := by
    simp only [List.length_append, List.length_cons]
    omega
  rw [many_eq_bind (by simp [ht]), bind_of_ok hitem, furtherRounds, if_pos hlt,
    bind_of_ok (hs stop)]
  rfl

/-- What a repetition has read are phrases of which each begins with the word. -/
lemma manyFrom_yields (text : String) {item : Rule α} {P : List Token → α → Prop}
    (h : item.Yields P) (hne : ∀ ts a, P ts a → ts ≠ []) :
    (manyFrom text item).Yields (Sequence fun ts a => P ts a ∧ ∀ t ∈ ts.head?, t.literal = text) :=
  (many_yields _ h hne).mono fun _ _ hs => hs.mono fun _ _ ⟨hp, ht⟩ =>
    ⟨hp, fun t hmem => fits_literal_iff.1 (ht t hmem)⟩

/-- A repetition ends where the word is not ahead. -/
lemma manyFrom_reads_nil {text : String} (item : Rule α) {rest : List Token}
    (h : StartsOutside [text] rest) : (manyFrom text item).Reads [] [] rest := by
  refine many_reads_nil item fun t ht hfits => h t ht ?_
  simp [fits_literal_iff.1 hfits]

lemma manyFrom_reads_cons {text : String} {item : Rule α} {t : Token}
    {ts us rest : List Token} {a : α} {as : List α} (ht : t.literal = text)
    (h : item.Reads (t :: ts) a (us ++ rest)) (hs : (manyFrom text item).Reads us as rest) :
    (manyFrom text item).Reads (t :: ts ++ us) (a :: as) rest :=
  many_reads_cons (fits_literal_iff.2 ht) h hs

/-- A sequence is read by a repetition of the rule for its parts, if that rule finds their ends by
itself. -/
lemma manyFrom_reads {text : String} {item : Rule α} {P : List Token → α → Prop}
    {ts rest : List Token} {as : List α} (hs : Sequence P ts as)
    (hitem : ∀ ts a, P ts a →
      (∃ t us, ts = t :: us ∧ t.literal = text) ∧ ∀ rest, item.Reads ts a rest)
    (hrest : StartsOutside [text] rest) : (manyFrom text item).Reads ts as rest := by
  induction hs with
  | nil => exact manyFrom_reads_nil item hrest
  | @cons ts us a as hp _ ih =>
    obtain ⟨⟨t, ts, rfl, ht⟩, hreads⟩ := hitem ts a hp
    exact manyFrom_reads_cons ht (hreads (us ++ rest)) ih

/-! ## Lists with commas -/

lemma skip_cons (t : Token) (rest : List Token) (stop : Nat) :
    skip ⟨t :: rest, stop⟩ = .ok () ⟨rest, stop⟩ := rfl

/-- A token that is taken away unseen, and what a rule reads after it. -/
lemma skip_bind_yields {r : Rule α} {P : List Token → α → Prop} (h : r.Yields P)
    (hne : ∀ ts a, P ts a → ts ≠ []) :
    (skip >>= fun _ => r).Yields fun ts a => ∃ t us, ts = t :: us ∧ P us a := by
  intro input a output hr
  obtain ⟨_, mid, hskip, hr⟩ := bind_eq_ok_iff.1 hr
  obtain ⟨us, hahead, hend, hp⟩ := h mid a output hr
  obtain ⟨-, rfl⟩ := EStateM.Result.ok.inj hskip
  rcases input with ⟨_ | ⟨t, rest⟩, stop⟩
  · exact absurd (List.append_eq_nil_iff.1 hahead.symm).1 (hne us a hp)
  · exact ⟨t :: us, congrArg (t :: ·) hahead, hend, t, us, rfl, hp⟩

/-- A token that is taken away unseen may be any token. -/
lemma skip_bind_reads {r : Rule α} (t : Token) {ts rest : List Token} {a : α}
    (h : r.Reads ts a rest) : (skip >>= fun _ => r).Reads (t :: ts) a rest := by
  intro stop
  rw [List.cons_append, bind_of_ok (skip_cons t _ stop)]
  exact h stop

lemma next_yields : next.Yields fun ts t => ts = [t] := by
  intro input t output h
  rcases input with ⟨_ | ⟨u, rest⟩, stop⟩
  · simp [next, Rule.fail] at h
  · obtain ⟨rfl, rfl⟩ := EStateM.Result.ok.inj h
    exact ⟨[u], rfl, rfl, rfl⟩

lemma next_reads (t : Token) (rest : List Token) : next.Reads [t] t rest :=
  fun _ => rfl

/-- A comma has not been looked at, so the first token of what has been read may be any token. -/
lemma further_yields {item : Rule α} {P : List Token → α → Prop} (h : item.Yields P)
    (hne : ∀ ts a, P ts a → ts ≠ []) :
    (further item).Yields fun ts a => ∃ t us, ts = t :: us ∧ P us a := by
  refine skip_bind_yields (((sees_yields ")").bind (R := fun _ => P) ?_).mono ?_) hne
  · rintro (_ | _)
    · exact h
    · exact .fail _ _
  · rintro _ a ⟨_, vs, _, rfl, rfl, hp⟩
    exact hp

/-- An item behind a comma is read, if it does not begin with a closing parenthesis. -/
lemma further_reads {item : Rule α} (comma : Token) {ts rest : List Token} {a : α}
    (hts : StartsOutside [")"] (ts ++ rest)) (h : item.Reads ts a rest) :
    (further item).Reads (comma :: ts) a rest :=
  skip_bind_reads comma ((sees_reads_false hts).bind h)

/-- An item, and a sequence of items each behind a comma, are items separated by commas. -/
lemma separated_of_sequence {P : List Token → α → Prop} {ts us : List Token} {a : α}
    {as : List α} (hp : P ts a)
    (hs : Sequence (fun ts a => (∃ t us, ts = t :: us ∧ P us a) ∧ ∀ t ∈ ts.head?, t.literal = ",")
      us as) : Separated P (ts ++ us) (a :: as) := by
  induction hs generalizing ts a with
  | nil => exact (List.append_nil ts).symm ▸ .one hp
  | cons h _ ih =>
    obtain ⟨⟨comma, vs, rfl, hvs⟩, hcomma⟩ := h
    exact .more hp (hcomma comma rfl) (ih hvs)

/-- What has been read is a list of items with commas between them. -/
lemma commaSeparated_yields {item : Rule α} {P : List Token → α → Prop} (h : item.Yields P)
    (hne : ∀ ts a, P ts a → ts ≠ []) : (commaSeparated item).Yields (Separated P) := by
  have hmany : (manyFrom "," (further item)).Yields _ :=
    manyFrom_yields "," (further_yields h hne) (by
      rintro _ a ⟨t, us, rfl, -⟩
      simp)
  refine (h.bind fun a => hmany.map (Q := fun us as => ∃ bs, as = a :: bs ∧
    Sequence _ us bs) fun us as hs => ⟨as, rfl, hs⟩).mono ?_
  rintro _ _ ⟨us, vs, a, rfl, hp, bs, rfl, hs⟩
  exact separated_of_sequence hp hs

/-- What the rule for an item has to do so that lists of items are read: items start with no
closing parenthesis and are read where a comma or a closing parenthesis follows. -/
structure ReadsItems (item : Rule α) (P : List Token → α → Prop) : Prop where
  starts : ∀ ts a, P ts a → ts ≠ [] ∧ StartsOutside [")"] ts
  reads : ∀ ts a t rest, P ts a → t.literal = "," ∨ t.literal = ")" → item.Reads ts a (t :: rest)

namespace ReadsItems

variable {item : Rule α} {P : List Token → α → Prop} {ts : List Token} {as : List α}

lemma startsOutside_append (h : ReadsItems item P) {a : α} (hp : P ts a) (rest : List Token) :
    StartsOutside [")"] (ts ++ rest) := by
  obtain ⟨hne, hstart⟩ := h.starts ts a hp
  obtain ⟨t, ts, rfl⟩ := List.exists_cons_of_ne_nil hne
  exact hstart

lemma startsOutside_comma {r : Token} (hr : r.literal = ")") (rest : List Token) :
    StartsOutside [","] (r :: rest) := by
  simp [StartsOutside, hr]

lemma manyFrom_reads (h : ReadsItems item P) (hs : Separated P ts as) {comma r : Token}
    (hcomma : comma.literal = ",") (hr : r.literal = ")") (rest : List Token) :
    (manyFrom "," (further item)).Reads (comma :: ts) as (r :: rest) := by
  induction hs generalizing comma with
  | @one ts a hp =>
    have hitem := h.reads ts a r rest hp (.inr hr)
    have hmany := manyFrom_reads_cons hcomma
      (further_reads comma (h.startsOutside_append hp _) hitem)
      (manyFrom_reads_nil (further item) (startsOutside_comma hr rest))
    rwa [List.append_nil] at hmany
  | @more ts us comma' a as hp hcomma' hs ih =>
    have hitem := h.reads ts a comma' (us ++ r :: rest) hp (.inl hcomma')
    exact manyFrom_reads_cons hcomma
      (further_reads comma (h.startsOutside_append hp _) hitem) (ih hcomma')

/-- A list of items is read up to a closing parenthesis, by what is known of its items. -/
lemma commaSeparated_reads (h : ReadsItems item P) (hs : Separated P ts as) {r : Token}
    (hr : r.literal = ")") (rest : List Token) :
    (commaSeparated item).Reads ts as (r :: rest) := by
  cases hs with
  | @one ts a hp =>
    have hmany := manyFrom_reads_nil (further item) (startsOutside_comma hr rest)
    have hlist : (commaSeparated item).Reads (ts ++ []) [a] (r :: rest) :=
      (h.reads ts a r rest hp (.inr hr)).bind (hmany.map (f := (a :: ·)))
    rwa [List.append_nil] at hlist
  | @more ts us comma a as hp hcomma hs =>
    exact (h.reads ts a comma _ hp (.inl hcomma)).bind
      ((h.manyFrom_reads hs hcomma hr rest).map (f := (a :: ·)))

end ReadsItems

lemma itemsRest_yields {item : Rule α} {P : List Token → α → Prop} (h : item.Yields P)
    (hne : ∀ ts a, P ts a → ts ≠ []) :
    (itemsRest item).Yields fun ts as =>
      ∃ us r, ts = us ++ [r] ∧ r.literal = ")" ∧ Separated P us as := by
  refine ((commaSeparated_yields h hne).bind fun as =>
    closingParen_yields.map (f := fun _ => as) (Q := fun ts bs =>
      bs = as ∧ ∃ r, ts = [r] ∧ r.literal = ")") fun ts _ hr => ⟨rfl, hr⟩).mono ?_
  rintro _ _ ⟨us, _, as, rfl, hs, rfl, r, rfl, hr⟩
  exact ⟨us, r, rfl, hr, hs⟩

/-- What has been read is a list of items, possibly empty, and a closing parenthesis. -/
lemma parenthesized_yields {item : Rule α} {P : List Token → α → Prop} (h : item.Yields P)
    (hne : ∀ ts a, P ts a → ts ≠ []) :
    (parenthesized item).Yields fun ts as =>
      ∃ us r, ts = us ++ [r] ∧ r.literal = ")" ∧ Listed P us as := by
  refine ((found_yields ")").bind (R := fun b ts as => if b then ts = [] ∧ as = [] else
    ∃ us r, ts = us ++ [r] ∧ r.literal = ")" ∧ Separated P us as) ?_).mono ?_
  · rintro (_ | _)
    · exact itemsRest_yields h hne
    · exact .pure []
  · rintro _ as ⟨us, vs, b, rfl, ⟨rfl, rfl⟩ | ⟨r, rfl, hr, rfl⟩, hb⟩
    · obtain ⟨us, r, rfl, hr, hs⟩ := hb
      exact ⟨us, r, rfl, hr, .inr hs⟩
    · obtain ⟨rfl, rfl⟩ := hb
      exact ⟨[], r, rfl, hr, .inl ⟨rfl, rfl⟩⟩

lemma parenthesized_reads_nil (item : Rule α) {r : Token} (hr : r.literal = ")")
    (rest : List Token) : (parenthesized item).Reads [r] [] rest := by
  intro stop
  rw [parenthesized, liftM_rule, bind_of_ok (found_reads hr rest stop)]
  rfl

lemma itemsRest_reads {item : Rule α} {P : List Token → α → Prop} {ts : List Token}
    {as : List α} (h : ReadsItems item P) (hs : Separated P ts as) {r : Token}
    (hr : r.literal = ")") (rest : List Token) : (itemsRest item).Reads (ts ++ [r]) as rest :=
  Reads.bind (h.commaSeparated_reads hs hr rest)
    ((closingParen_reads hr rest).map (f := fun _ => as))

/-- A list of items and the closing parenthesis behind it are read, also if the list is empty. -/
lemma parenthesized_reads {item : Rule α} {P : List Token → α → Prop} {ts : List Token}
    {as : List α} (h : ReadsItems item P) (hs : Listed P ts as) {r : Token}
    (hr : r.literal = ")") (rest : List Token) :
    (parenthesized item).Reads (ts ++ [r]) as rest := by
  rcases hs with ⟨rfl, rfl⟩ | hs
  · exact parenthesized_reads_nil item hr rest
  · have hstart : StartsOutside [")"] (ts ++ [r] ++ rest) := by
      rw [List.append_assoc]
      cases hs with
      | one hp => exact h.startsOutside_append hp _
      | more hp _ _ =>
        rw [List.append_assoc]
        exact h.startsOutside_append hp _
    exact (found_reads_nil hstart).bind (itemsRest_reads h hs hr rest)

end LetDef.Rule
