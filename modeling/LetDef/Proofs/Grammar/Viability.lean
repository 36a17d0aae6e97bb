import LetDef.Proofs.Grammar.RuleLogic

/-!
# What has been read can be completed

A rule that fails has read some tokens before.  Does any phrase start with them, or should the rule
have failed earlier?  The rules of the grammar never read too much: there is always a way to go on
with other tokens so that the rule succeeds.

This is not kept by sequencing as it stands, because a part that has succeeded must succeed with the
same answer on the completed tokens, where it may be followed by a token that it has not met.  Each
rule comes with a condition on the token after it, under which it stops where it stopped before.  So
three things go together (`Viable F S r s`).

* Where `r` has succeeded, `s` reads the same tokens, if the token after them is the same or
  satisfies `F`.
* Where `r` has failed after some tokens, these tokens have a completion that `s` reads before a
  token that satisfies `F`.
* Some tokens are read by `s` to begin with, and the first of them satisfies `S`, which is what the
  rule before `s` wants to see.

The rule `s` is `r` under a larger limit, since a completion may have to nest where `r` could not.
At the limit there is no completion to speak of, nor after a malformed literal (`Recoverable`).
-/

namespace LetDef

/-! ## Conditions on the token that follows -/

/-- A condition on the token after a phrase, or on the end of the list in its place. -/
abbrev Follow : Type := Option Token → Prop

namespace Follow

/-- No condition. -/
def anything : Follow := fun _ => True

/-- The list ends. -/
def ends : Follow := fun o => o = none

/-- The token is this one. -/
def is (t : Token) : Follow := fun o => o = some t

/-- The list goes on with one of the words. -/
def ahead (words : List String) : Follow := fun o => ∃ t ∈ o, t.literal ∈ words

/-- The list does not go on with one of the words. -/
def outside (words : List String) : Follow := fun o => ∀ t ∈ o, t.literal ∉ words

/-- The list does not go on with a token that does not fit the pattern. -/
def fitting (pattern : Pattern) : Follow := fun o => ∀ t ∈ o, pattern.fits t

lemma outside_append_iff {words words' : List String} {o : Option Token} :
    outside (words ++ words') o ↔ outside words o ∧ outside words' o := by
  cases o <;> simp [outside]

lemma not_any_literal_of_outside {text : String} {o : Option Token} (ho : outside [text] o) :
    ¬ o.any (Pattern.literal text).fits := by
  cases o <;> simp_all [outside, Pattern.fits]

lemma not_any_oneOf_of_outside {words : List String} {o : Option Token} (ho : outside words o) :
    ¬ o.any (Pattern.oneOf words).fits := by
  cases o <;> simp_all [outside, Pattern.fits]

lemma outside_of_ahead {words words' : List String} (h : ∀ w ∈ words, w ∉ words')
    {o : Option Token} (ho : ahead words o) : outside words' o := by
  obtain ⟨t, rfl, ht⟩ := ho
  intro u hu
  obtain rfl := Option.some.inj hu
  exact h _ ht

lemma fitting_of_ahead {words : List String} {pattern : Pattern}
    (h : ∀ t : Token, t.literal ∈ words → pattern.fits t) {o : Option Token}
    (ho : ahead words o) : fitting pattern o := by
  obtain ⟨t, rfl, ht⟩ := ho
  intro u hu
  obtain rfl := Option.some.inj hu
  exact h _ ht

end Follow

/-- A token with the text. -/
def Token.mark (text : String) : Token := ⟨.operator, text, 0⟩

/-- A name. -/
def Token.someName : Token := ⟨.identifier, "x", 0⟩

lemma Follow.ahead_of_is_mark {text : String} {words : List String} (h : text ∈ words)
    {o : Option Token} (ho : Follow.is (.mark text) o) : Follow.ahead words o :=
  ⟨_, ho, h⟩

lemma Follow.outside_of_is {t : Token} {words : List String} (h : t.literal ∉ words)
    {o : Option Token} (ho : Follow.is t o) : Follow.outside words o := by
  rintro u hu
  obtain rfl := Option.some.inj (ho.symm.trans hu)
  exact h

lemma Follow.not_is_none (t : Token) : ¬ Follow.is t none :=
  nofun

/-- The fault is one that the tokens read so far have not caused. -/
def Recoverable (cause : Cause) : Prop :=
  cause ≠ .recursionLimit ∧ cause ≠ .malformedLiteral

namespace Rule

open Follow

variable {α β : Type} {F F' F₁ S S' S₁ S₂ : Follow}

/-! ## Viable runs -/

/-- The rule reads the tokens with some others after them. -/
def Completes (F : Follow) (s : Rule α) (us : List Token) : Prop :=
  ∃ vs a, ∀ rest, F rest.head? → s.Reads (us ++ vs) a rest

/-- The rule reads something. -/
def Sample (F S : Follow) (s : Rule α) : Prop :=
  ∃ vs a, ∀ rest, F rest.head? → S (vs ++ rest).head? ∧ s.Reads vs a rest

/-- What has been read in a run is read by the rule `s` too, or can be completed so that it is. -/
inductive ViableRun (F S : Follow) (s : Rule α) (input : TokenInput) :
    EStateM.Result Fault TokenInput α → Prop where
  | ok {us : List Token} {a : α} {output : TokenInput} :
      input.ahead = us ++ output.ahead → (us = [] → ∀ o, F o → S o) →
      (∀ rest, rest.head? = output.ahead.head? ∨ F rest.head? → s.Reads us a rest) →
      ViableRun F S s input (.ok a output)
  | error {us : List Token} {fault : Fault} {output : TokenInput} :
      input.ahead = us ++ output.ahead →
      (us ≠ [] → Recoverable fault.cause → Completes F s us) →
      ViableRun F S s input (.error fault output)

/-- All runs of the rule `r` are viable for the rule `s`, and `s` reads something. -/
structure Viable (F S : Follow) (r s : Rule α) : Prop where
  run : ∀ input, ViableRun F S s input (r input)
  sample : Sample F S s

/-- A rule that fails where it stands has read nothing that would have to be completed. -/
lemma ViableRun.refused {s : Rule α} {input : TokenInput} {fault : Fault} :
    ViableRun F S s input (.error fault input) :=
  .error (List.nil_append _).symm fun hne => absurd rfl hne

/-- The tokens that have been read start where the run has started, or where another run may. -/
lemma head?_of_read {us ahead rest : List Token} {input : TokenInput}
    (hahead : input.ahead = us ++ ahead) (hempty : us = [] → ∀ o, F o → S o)
    (hrest : rest.head? = ahead.head? ∨ F rest.head?) :
    (us ++ rest).head? = input.ahead.head? ∨ S (us ++ rest).head? := by
  rw [hahead]
  cases us with
  | nil => exact hrest.imp id (hempty rfl _)
  | cons t us => exact .inl rfl

/-- After a fault the rule can be completed, also if nothing has been read. -/
lemma exists_completion {us ahead : List Token} {input : TokenInput} {s : Rule α}
    (hahead : input.ahead = us ++ ahead) (h : us ≠ [] → Completes F s us)
    (hsample : Sample F S s) :
    ∃ vs a, ∀ rest, F rest.head? →
      ((us ++ (vs ++ rest)).head? = input.ahead.head? ∨ S (us ++ (vs ++ rest)).head?) ∧
        s.Reads (us ++ vs) a rest := by
  rw [hahead]
  cases us with
  | nil =>
    obtain ⟨vs, a, hvs⟩ := hsample
    exact ⟨vs, a, fun rest hrest => ⟨.inr (hvs rest hrest).1, (hvs rest hrest).2⟩⟩
  | cons t us =>
    obtain ⟨vs, a, hvs⟩ := h (List.cons_ne_nil t us)
    exact ⟨vs, a, fun rest hrest => ⟨.inl rfl, hvs rest hrest⟩⟩

/-! ## Sequencing -/

lemma Sample.bind {s : Rule α} {g : α → Rule β} (hs : Sample F₁ S₁ s)
    (hg : ∀ a, Sample F S₂ (g a)) (hS : ∀ o, S₂ o → F₁ o) : Sample F S₁ (s >>= g) := by
  obtain ⟨us, a, hus⟩ := hs
  obtain ⟨vs, b, hvs⟩ := hg a
  refine ⟨us ++ vs, b, fun rest hrest => ?_⟩
  obtain ⟨hhead, hread⟩ := hvs rest hrest
  obtain ⟨hhead', hread'⟩ := hus (vs ++ rest) (hS _ hhead)
  rw [List.append_assoc]
  exact ⟨hhead', hread'.bind hread⟩

/-- A run that fails in its first part is completed by what completes this part and a sample of the
second one. -/
lemma ViableRun.bind {r s : Rule α} {f g : α → Rule β} {input : TokenInput}
    (hr : ViableRun F₁ S₁ s input (r input)) (hf : ∀ a, Viable F S₂ (f a) (g a))
    (hS : ∀ o, S₂ o → F₁ o) : ViableRun F S₁ (s >>= g) input ((r >>= f) input) := by
  cases hres : r input with
  | error fault mid =>
    rw [hres] at hr
    rw [bind_of_error hres]
    cases hr with
    | error hahead hcompletes =>
      -- The first rule is completed, and the second one has not begun: it reads its sample.
      refine .error hahead fun hne hcause => ?_
      obtain ⟨vs, a, hread⟩ := hcompletes hne hcause
      obtain ⟨ws, b, hws⟩ := (hf a).sample
      refine ⟨vs ++ ws, b, fun rest hrest => ?_⟩
      obtain ⟨hhead, hread'⟩ := hws rest hrest
      rw [← List.append_assoc]
      exact (hread (ws ++ rest) (hS _ hhead)).bind hread'
  | ok a mid =>
    rw [hres] at hr
    rw [bind_of_ok hres]
    cases hr with
    | @ok us _ _ hahead hempty hread =>
      have hrun := (hf a).run mid
      generalize f a mid = res at hrun
      cases hrun with
      | @ok vs _ output hahead' hempty' hread' =>
        have hboth : input.ahead = (us ++ vs) ++ output.ahead := by
          rw [hahead, hahead', List.append_assoc]
        refine .ok hboth (fun hnil o ho => ?_) fun rest hrest => ?_
        · obtain ⟨hus, hvs⟩ := List.append_eq_nil_iff.1 hnil
          exact hempty hus o (hS o (hempty' hvs o ho))
        · -- Where the second rule reads nothing, the first one is followed by what follows both.
          have hhead := head?_of_read hahead' hempty' hrest
          exact (hread _ (hhead.imp id (hS _))).bind (hread' rest hrest)
      | @error vs fault output hahead' hcompletes' =>
        have hboth : input.ahead = (us ++ vs) ++ output.ahead := by
          rw [hahead, hahead', List.append_assoc]
        refine .error hboth fun _ hcause => ?_
        obtain ⟨ws, b, hws⟩ :=
          exists_completion hahead' (fun hne => hcompletes' hne hcause) (hf a).sample
        refine ⟨ws, b, fun rest hrest => ?_⟩
        obtain ⟨hhead, hread'⟩ := hws rest hrest
        rw [← List.append_assoc] at hhead
        rw [List.append_assoc]
        exact (hread _ (hhead.imp id (hS _))).bind hread'

namespace Viable

variable {r s : Rule α}

theorem pure (F : Follow) (a : α) : Viable F F (Pure.pure a) (Pure.pure a) where
  run _ := .ok (List.nil_append _).symm (fun _ _ => id) fun rest _ => .pure a rest
  sample := ⟨[], a, fun rest hrest => ⟨hrest, .pure a rest⟩⟩

theorem bind {f g : α → Rule β} (h : Viable F₁ S₁ r s) (hf : ∀ a, Viable F S₂ (f a) (g a))
    (hS : ∀ o, S₂ o → F₁ o) : Viable F S₁ (r >>= f) (s >>= g) where
  run input := (h.run input).bind hf hS
  sample := h.sample.bind (fun a => (hf a).sample) hS

/-- A rule that does not mind what follows, and another one after it. -/
theorem before {f g : α → Rule β} (h : Viable anything S₁ r s)
    (hf : ∀ a, Viable F S₂ (f a) (g a)) : Viable F S₁ (r >>= f) (s >>= g) :=
  h.bind hf fun _ _ => trivial

theorem map (h : Viable F S r s) (f : α → β) :
    Viable F S (r >>= fun a => Pure.pure (f a)) (s >>= fun a => Pure.pure (f a)) :=
  h.bind (fun a => pure F (f a)) fun _ => id

theorem mono (h : Viable F S r s) (hF : ∀ o, F' o → F o) : Viable F' S r s where
  run input := by
    have hrun := h.run input
    generalize r input = res at hrun ⊢
    cases hrun with
    | ok hahead hempty hread =>
      exact .ok hahead (fun hnil o ho => hempty hnil o (hF o ho))
        fun rest hrest => hread rest (hrest.imp id (hF _))
    | error hahead hcompletes =>
      refine .error hahead fun hne hcause => ?_
      obtain ⟨vs, a, hvs⟩ := hcompletes hne hcause
      exact ⟨vs, a, fun rest hrest => hvs rest (hF _ hrest)⟩
  sample := by
    obtain ⟨vs, a, hvs⟩ := h.sample
    exact ⟨vs, a, fun rest hrest => hvs rest (hF _ hrest)⟩

end Viable

/-! ## Single tokens -/

/-- Where a token is missing, a token that fits completes the list. -/
theorem viable_expect {pattern : Pattern} {t : Token} (ht : pattern.fits t) (cause : Cause) :
    Viable F (is t) (expect pattern cause) (expect pattern cause) where
  run input := by
    rcases input with ⟨_ | ⟨u, tail⟩, stop⟩
    · exact .refused
    · by_cases hu : pattern.fits u
      · have hread := expect_reads hu cause
        rw [show expect pattern cause ⟨u :: tail, stop⟩ = .ok u ⟨tail, stop⟩ from hread tail stop]
        exact .ok (List.singleton_append).symm (fun hnil => absurd hnil (List.cons_ne_nil u []))
          fun rest _ => hread rest
      · have hfail : expect pattern cause ⟨u :: tail, stop⟩ =
            .error ⟨cause, u.offset⟩ ⟨u :: tail, stop⟩ := by
          have hnone : optional pattern ⟨u :: tail, stop⟩ = .ok none ⟨u :: tail, stop⟩ :=
            optional_reads_nil (by simpa using hu) stop
          rw [expect, bind_of_ok hnone]
          rfl
        rw [hfail]
        exact .refused
  sample := ⟨[t], t, fun rest _ => ⟨rfl, expect_reads ht cause rest⟩⟩

theorem viable_word (text : String) : Viable F (is (.mark text)) (word text) (word text) :=
  (viable_expect (fits_literal_iff.2 rfl) _).map _

theorem viable_semicolon : Viable F (is (.mark ";")) semicolon semicolon :=
  (viable_expect (fits_literal_iff.2 rfl) _).map _

theorem viable_closingParen : Viable F (is (.mark ")")) closingParen closingParen :=
  (viable_expect (fits_literal_iff.2 rfl) _).map _

theorem viable_identifier : Viable F (is .someName) identifier identifier :=
  (viable_expect (fits_kind_iff.2 rfl) _).map _

/-! ## Choices by the token ahead -/

/-- A run that reads one token and goes on as another rule does. -/
lemma ViableRun.cons {r s body body' : Rule α} {t : Token} {tail : List Token} {stop : Nat}
    (hbody : Viable F S body body') (hr : r ⟨t :: tail, stop⟩ = body ⟨tail, stop⟩)
    (hs : ∀ rest stop, s ⟨t :: rest, stop⟩ = body' ⟨rest, stop⟩) :
    ViableRun F S' s ⟨t :: tail, stop⟩ (r ⟨t :: tail, stop⟩) := by
  have hreads : ∀ {us a rest}, body'.Reads us a rest → s.Reads (t :: us) a rest := by
    intro us a rest hread stop
    rw [List.cons_append, hs]
    exact hread stop
  have hrun := hbody.run ⟨tail, stop⟩
  rw [hr]
  generalize body ⟨tail, stop⟩ = res at hrun
  cases hrun with
  | @ok us _ _ hahead _ hread =>
    exact .ok (congrArg (t :: ·) hahead) (fun hnil => absurd hnil (List.cons_ne_nil t us))
      fun rest hrest => hreads (hread rest hrest)
  | @error us _ output hahead hcompletes =>
    have hboth : t :: tail = (t :: us) ++ output.ahead := congrArg (t :: ·) hahead
    refine .error hboth fun _ hcause => ?_
    obtain ⟨vs, a, hvs⟩ :=
      exists_completion hahead (fun hne => hcompletes hne hcause) hbody.sample
    exact ⟨vs, a, fun rest hrest => hreads (hvs rest hrest).2⟩

/-- A run of a rule that the first token has chosen. -/
lemma ViableRun.of_head {s s' : Rule α} {input : TokenInput}
    {res : EStateM.Result Fault TokenInput α} (h : ViableRun F S s input res)
    (hne : ¬ ∀ o, F o → S o)
    (hs : ∀ other : TokenInput, other.ahead.head? = input.ahead.head? → s' other = s other) :
    ViableRun F S' s' input res := by
  have hreads : ∀ {us tail rest a}, us ≠ [] → input.ahead = us ++ tail → s.Reads us a rest →
      s'.Reads us a rest := by
    intro us tail rest a hus hahead hread stop
    obtain ⟨t, us, rfl⟩ := List.exists_cons_of_ne_nil hus
    rw [hs _ (by rw [hahead]; rfl)]
    exact hread stop
  cases h with
  | ok hahead hempty hread =>
    have hus : _ ≠ [] := fun hnil => hne (hempty hnil)
    exact .ok hahead (fun hnil => absurd hnil hus)
      fun rest hrest => hreads hus hahead (hread rest hrest)
  | error hahead hcompletes =>
    refine .error hahead fun hus hcause => ?_
    obtain ⟨vs, a, hvs⟩ := hcompletes hus hcause
    refine ⟨vs, a, fun rest hrest stop => ?_⟩
    obtain ⟨t, us, rfl⟩ := List.exists_cons_of_ne_nil hus
    rw [hs _ (by rw [hahead]; rfl)]
    exact hvs rest hrest stop

/-- What is not outside a single text starts with it. -/
lemma exists_cons_of_not_outside {text : String} {input : TokenInput}
    (h : ¬ outside [text] input.ahead.head?) :
    ∃ t tail, t.literal = text ∧ input = ⟨t :: tail, input.endOffset⟩ := by
  obtain ⟨t, ht, htext⟩ : ∃ t ∈ input.ahead.head?, t.literal = text := by
    simpa [outside] using h
  obtain ⟨tail, hahead⟩ := List.head?_eq_some_iff.1 ht
  exact ⟨t, tail, htext, by rw [← hahead]⟩

/-- What is introduced by a word can be left out, so it is viable if it is where the word is. -/
theorem Viable.introduced {item item' : Rule α} {text : String} (h : Viable F₁ S₁ item item')
    (hF : ∀ o, F o → F₁ o ∧ outside [text] o) :
    Viable F F (introduced text item) (introduced text item') where
  run input := by
    by_cases hhead : outside [text] input.ahead.head?
    · have hnone : Rule.introduced text item input = .ok none input :=
        introduced_reads_nil item hhead input.endOffset
      rw [hnone]
      refine .ok (List.nil_append _).symm (fun _ _ => id) fun rest hrest => ?_
      rcases hrest with hrest | hrest
      · exact introduced_reads_nil item' (show outside [text] rest.head? from hrest ▸ hhead)
      · exact introduced_reads_nil item' (hF _ hrest).2
    · obtain ⟨t, tail, ht, hinput⟩ := exists_cons_of_not_outside hhead
      have hfound : ∀ (item : Rule α) rest stop, Rule.introduced text item ⟨t :: rest, stop⟩ =
          (item >>= fun a => Pure.pure (some a)) ⟨rest, stop⟩ := by
        intro item rest stop
        rw [Rule.introduced]
        exact bind_of_ok (found_reads ht rest stop)
      rw [hinput]
      exact .cons ((h.mono fun o ho => (hF o ho).1).map some) (hfound item tail _) (hfound item')
  sample := ⟨[], none, fun rest hrest => ⟨hrest, introduced_reads_nil item' (hF _ hrest).2⟩⟩

lemma unlessSeen_of_outside {text : String} (item : Rule α) {input : TokenInput}
    (h : outside [text] input.ahead.head?) :
    unlessSeen text item input = (item >>= fun a => Pure.pure (some a)) input := by
  have hsees : sees text input = .ok false input :=
    sees_reads_false h input.endOffset
  rw [unlessSeen, liftM_rule, bind_of_ok hsees]
  rfl

lemma unlessSeen_reads_ahead {text : String} (item : Rule α) {rest : List Token}
    (h : ahead [text] rest.head?) : (unlessSeen text item).Reads [] none rest := by
  obtain ⟨t, ht, hmem⟩ := h
  obtain ⟨tail, rfl⟩ := List.head?_eq_some_iff.1 ht
  exact unlessSeen_reads_nil item tail (List.mem_singleton.1 hmem)

theorem Viable.unlessSeen {item item' : Rule α} {text : String} (h : Viable F₁ S₁ item item')
    (hF : ∀ o, ahead [text] o → F₁ o) (hne : ¬ ∀ o, ahead [text] o → S₁ o) :
    Viable (ahead [text]) anything (unlessSeen text item) (unlessSeen text item') where
  run input := by
    by_cases hhead : outside [text] input.ahead.head?
    · have hrun := ((h.mono hF).map some).run input
      rw [unlessSeen_of_outside item hhead]
      exact hrun.of_head hne fun other hother => unlessSeen_of_outside item' (hother ▸ hhead)
    · obtain ⟨t, tail, ht, hinput⟩ := exists_cons_of_not_outside hhead
      have hnone : Rule.unlessSeen text item input = .ok none input := by
        rw [hinput]
        exact unlessSeen_reads_nil item tail ht _
      rw [hnone]
      refine .ok (List.nil_append _).symm (fun _ _ _ => trivial) fun rest hrest => ?_
      rcases hrest with hrest | hrest
      · refine unlessSeen_reads_ahead item' ⟨t, ?_, List.mem_singleton.2 ht⟩
        rw [hrest, hinput]
        rfl
      · exact unlessSeen_reads_ahead item' hrest
  sample := ⟨[], none, fun _ hrest => ⟨trivial, unlessSeen_reads_ahead item' hrest⟩⟩

/-! ## Repetition -/

/-- Runs of an item where a repetition asks for one: there it reads something whenever it
succeeds. -/
def ViableItem (F : Follow) (continues : Token → Bool) (item item' : Rule α) : Prop :=
  ∀ t tail stop, continues t →
    ViableRun F (fun _ => False) item' ⟨t :: tail, stop⟩ (item ⟨t :: tail, stop⟩)

section Repetition

variable {continues : Token → Bool} {item item' : Rule α}

lemma many_reads_of_follow (hF : ∀ o, F o → F₁ o ∧ ¬ o.any continues) {rest : List Token}
    (hrest : F rest.head?) : (many continues item').Reads [] [] rest := by
  refine many_reads_nil item' fun t ht => ?_
  have hnot := (hF _ hrest).2
  rw [Option.mem_def.1 ht] at hnot
  exact hnot

/-- A round that has read something, and the rounds after it. -/
lemma ViableRun.round {us : List Token} {t : Token} {a : α} {input mid : TokenInput}
    (ht : continues t) (hahead : input.ahead = (t :: us) ++ mid.ahead)
    (hread : ∀ rest, rest.head? = mid.ahead.head? ∨ F₁ rest.head? → item'.Reads (t :: us) a rest)
    (hF : ∀ o, F o → F₁ o ∧ ¬ o.any continues)
    (hrun : ViableRun F F (many continues item') mid (many continues item mid)) :
    ViableRun F F (many continues item') input
      ((many continues item >>= fun as => Pure.pure (a :: as)) mid) := by
  cases hres : many continues item mid with
  | ok as output =>
    rw [hres] at hrun
    rw [bind_of_ok hres]
    cases hrun with
    | @ok vs _ _ hahead' hempty' hread' =>
      have hboth : input.ahead = (t :: us ++ vs) ++ output.ahead := by
        rw [hahead, hahead', List.append_assoc]
      refine .ok hboth (fun hnil => absurd hnil (List.cons_ne_nil t _)) fun rest hrest => ?_
      have hhead := head?_of_read hahead' hempty' hrest
      exact many_reads_cons ht (hread _ (hhead.imp id fun ho => (hF _ ho).1)) (hread' rest hrest)
  | error fault output =>
    rw [hres] at hrun
    rw [bind_of_error hres]
    cases hrun with
    | @error vs _ _ hahead' hcompletes' =>
      have hboth : input.ahead = (t :: us ++ vs) ++ output.ahead := by
        rw [hahead, hahead', List.append_assoc]
      refine .error hboth fun _ hcause => ?_
      have hsample : Sample F F (many continues item') :=
        ⟨[], [], fun rest hrest => ⟨hrest, many_reads_of_follow hF hrest⟩⟩
      obtain ⟨ws, as, hws⟩ :=
        exists_completion hahead' (fun hne => hcompletes' hne hcause) hsample
      refine ⟨ws, a :: as, fun rest hrest => ?_⟩
      obtain ⟨hhead, hread'⟩ := hws rest hrest
      rw [← List.append_assoc] at hhead
      rw [List.append_assoc]
      exact many_reads_cons ht (hread _ (hhead.imp id fun ho => (hF _ ho).1)) hread'

lemma Viable.viableItem (h : Viable F S item item') (hne : ¬ ∀ o, F o → S o)
    (continues : Token → Bool) : ViableItem F continues item item' :=
  fun _ _ _ _ => (h.run _).of_head hne fun _ _ => rfl

/-- A repetition is viable if its item is, by induction on the tokens ahead; no round can be the
last that is refused. -/
lemma ViableItem.run_many (h : ViableItem F₁ continues item item')
    (hF : ∀ o, F o → F₁ o ∧ ¬ o.any continues) (hne : ∃ o, F₁ o) (input : TokenInput) :
    ViableRun F F (many continues item') input (many continues item input) := by
  induction hn : input.ahead.length using Nat.strongRecOn generalizing input with
  | ind n ih =>
    by_cases hhead : input.ahead.head?.any continues
    · obtain ⟨t, tail, stop, rfl⟩ : ∃ t tail stop, input = ⟨t :: tail, stop⟩ := by
        rcases input with ⟨_ | ⟨t, tail⟩, stop⟩
        · exact absurd hhead (by simp)
        · exact ⟨t, tail, stop, rfl⟩
      have ht : continues t := hhead
      have hrun := h t tail stop ht
      rw [many_eq_bind hhead]
      cases hres : item ⟨t :: tail, stop⟩ with
      | error fault mid =>
        rw [hres] at hrun
        rw [bind_of_error hres]
        cases hrun with
        | @error us _ _ hahead hcompletes =>
          refine .error hahead fun hus hcause => ?_
          obtain ⟨vs, a, hvs⟩ := hcompletes hus hcause
          obtain ⟨u, us, rfl⟩ := List.exists_cons_of_ne_nil hus
          obtain rfl : t = u := (List.cons.inj hahead).1
          refine ⟨vs, [a], fun rest hrest => ?_⟩
          have hround := many_reads_cons ht (hvs rest (hF _ hrest).1)
            (many_reads_of_follow hF hrest)
          rwa [List.append_nil] at hround
      | ok a mid =>
        rw [hres] at hrun
        rw [bind_of_ok hres]
        cases hrun with
        | @ok us _ _ hahead hempty hread =>
          -- The item reads something, so that a repetition never ends for want of progress.
          obtain ⟨o, ho⟩ := hne
          have hus : us ≠ [] := fun hnil => hempty hnil o ho
          obtain ⟨u, us, rfl⟩ := List.exists_cons_of_ne_nil hus
          obtain rfl : t = u := (List.cons.inj hahead).1
          have hlt : mid.ahead.length < (t :: tail).length := by
            rw [show t :: tail = t :: us ++ mid.ahead from hahead]
            simp only [List.length_append, List.length_cons]
            omega
          rw [furtherRounds, if_pos hlt]
          exact .round ht hahead hread hF (ih _ (hn ▸ hlt) mid rfl)
    · rw [many_eq_of_not item hhead]
      refine .ok (List.nil_append _).symm (fun _ _ => id) fun rest hrest => ?_
      rcases hrest with hrest | hrest
      · exact many_reads_nil item' fun t ht hcontinues => hhead (by
          rw [← hrest, Option.mem_def.1 ht]
          exact hcontinues)
      · exact many_reads_of_follow hF hrest

theorem ViableItem.many (h : ViableItem F₁ continues item item')
    (hF : ∀ o, F o → F₁ o ∧ ¬ o.any continues) (hne : ∃ o, F₁ o) :
    Viable F F (many continues item) (many continues item') where
  run := h.run_many hF hne
  sample := ⟨[], [], fun _ hrest => ⟨hrest, many_reads_of_follow hF hrest⟩⟩

end Repetition

/-! ## Lists with commas -/

/-- What makes a list of items viable: an item ends before a comma, a closing parenthesis and the
end of the list, and starts with a token that is no closing parenthesis. -/
structure ViableInList (F S : Follow) (item item' : Rule α) : Prop where
  viable : Viable F S item item'
  follow : ∀ o, ahead [",", ")"] o → F o
  follow_none : F none
  starts : ∀ o, S o → outside [")"] o
  not_starts_none : ¬ S none

lemma ahead_mono {words words' : List String} (h : words ⊆ words') {o : Option Token}
    (ho : ahead words o) : ahead words' o := by
  obtain ⟨t, ht, hmem⟩ := ho
  exact ⟨t, ht, h hmem⟩

namespace ViableInList

variable {item item' : Rule α}

lemma progress (h : ViableInList F S item item') : ¬ ∀ o, F o → S o :=
  fun hall => h.not_starts_none (hall none h.follow_none)

lemma furtherRest (h : ViableInList F S item item') :
    Viable F S (furtherRest item) (furtherRest item') where
  run input := by
    by_cases hhead : outside [")"] input.ahead.head?
    · have hitem : ∀ (item : Rule α) (input : TokenInput), outside [")"] input.ahead.head? →
          Rule.furtherRest item input = item input := by
        intro item input hinput
        have hsees : sees ")" input = .ok false input := sees_reads_false hinput input.endOffset
        rw [Rule.furtherRest, liftM_rule, bind_of_ok hsees]
        rfl
      rw [hitem item input hhead]
      exact (h.viable.run input).of_head h.progress
        fun other hother => hitem item' other (hother ▸ hhead)
    · obtain ⟨t, tail, ht, hinput⟩ := exists_cons_of_not_outside hhead
      have hfail : Rule.furtherRest item input =
          .error ⟨.trailingComma, input.nextOffset⟩ input := by
        have hsees : sees ")" input = .ok true input := by
          rw [hinput]
          exact sees_reads_true ht input.endOffset
        rw [Rule.furtherRest, liftM_rule, bind_of_ok hsees]
        rfl
      rw [hfail]
      exact .refused
  sample := by
    obtain ⟨vs, a, hvs⟩ := h.viable.sample
    refine ⟨vs, a, fun rest hrest => ?_⟩
    obtain ⟨hhead, hread⟩ := hvs rest hrest
    exact ⟨hhead, (sees_reads_false (h.starts _ hhead)).bind hread⟩

lemma further (h : ViableInList F S item item') :
    ViableItem F (Pattern.literal ",").fits (further item) (further item') :=
  fun _ _ _ _ => .cons h.furtherRest rfl fun _ _ => rfl

lemma commaSeparated (h : ViableInList F S item item') :
    Viable (ahead [")"]) S (commaSeparated item) (commaSeparated item') := by
  have hfollow : ∀ o, ahead [")"] o → F o := fun o ho => h.follow o (ahead_mono (by simp) ho)
  have hmany : Viable (ahead [")"]) (ahead [")"]) (manyFrom "," (Rule.further item))
      (manyFrom "," (Rule.further item')) := by
    refine h.further.many (fun o ho => ⟨hfollow o ho, ?_⟩)
      ⟨none, h.follow_none⟩
    exact not_any_literal_of_outside (outside_of_ahead (by decide) ho)
  exact h.viable.bind (fun a => hmany.map (a :: ·)) hfollow

lemma itemsRest (h : ViableInList F S item item') :
    Viable anything S (itemsRest item) (itemsRest item') :=
  h.commaSeparated.bind (fun items => viable_closingParen.map fun _ => items)
    fun _ => ahead_of_is_mark (List.mem_singleton_self _)

/-- A list in parentheses can always be closed. -/
theorem parenthesized (h : ViableInList F S item item') :
    Viable anything (is (.mark ")")) (parenthesized item) (parenthesized item') where
  run input := by
    by_cases hhead : outside [")"] input.ahead.head?
    · have hitems : ∀ (item : Rule α) (input : TokenInput), outside [")"] input.ahead.head? →
          Rule.parenthesized item input = Rule.itemsRest item input := by
        intro item input hinput
        have hfound : found ")" input = .ok false input := found_reads_nil hinput input.endOffset
        rw [Rule.parenthesized, liftM_rule, bind_of_ok hfound]
        rfl
      rw [hitems item input hhead]
      exact (h.itemsRest.run input).of_head (fun hall => h.not_starts_none (hall none trivial))
        fun other hother => hitems item' other (hother ▸ hhead)
    · obtain ⟨t, tail, ht, hinput⟩ := exists_cons_of_not_outside hhead
      rw [hinput]
      exact .cons (.pure anything []) (parenthesized_reads_nil item ht tail _)
        (parenthesized_reads_nil item' ht)
  sample := ⟨[.mark ")"], [], fun rest _ => ⟨rfl, parenthesized_reads_nil item' rfl rest⟩⟩

end ViableInList

end Rule

end LetDef
