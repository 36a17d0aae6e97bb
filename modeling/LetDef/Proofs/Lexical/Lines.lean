import LetDef.Proofs.Lexical.Boundary

/-!
# Texts are cut line by line

`Cutting` says how the characters of a text are cut, with the fault if there is one; there is
exactly one way.  A text with a blank in the middle is cut like its two halves, one after the other
(`Cutting.append`), since no recogniser reads on behind the blank.

So each token of a text, and its fault, is one of the line on which it stands, and of no more than
that line.  `tokenize_byLines` puts this together.
-/

namespace LetDef

/-! ## How a text is cut -/

/-- How the characters `cs`, which start at the index `start`, are cut: they are blank, or what
stands after the blanks is refused, or it is a token and the rest is cut in its turn. -/
inductive Cutting : Nat → List Char → Except Fault (List Token) → Prop where
  | blank {start : Nat} {gap : List Char} : (∀ c ∈ gap, isBlank c) → Cutting start gap (.ok [])
  | refused {start n : Nat} {gap cs : List Char} {cause : Cause} :
      (∀ c ∈ gap, isBlank c) → cs ≠ [] → (∀ c ∈ cs.head?, ¬ isBlank c) →
      Lexeme.token cs = ⟨n, .error cause⟩ →
      Cutting start (gap ++ cs) (.error ⟨cause, start + gap.length + n⟩)
  | token {start : Nat} {gap word rest : List Char} {kind : Token.Kind}
      {answer : Except Fault (List Token)} :
      (∀ c ∈ gap, isBlank c) → word ≠ [] → (∀ c ∈ word.head?, ¬ isBlank c) →
      Lexeme.token (word ++ rest) = ⟨word.length, .ok kind⟩ →
      Cutting (start + gap.length + word.length) rest answer →
      Cutting start (gap ++ (word ++ rest))
        (answer.map (⟨kind, String.ofList word, start + gap.length⟩ :: ·))

lemma head?_append_not_blank {cs : List Char} (hne : cs ≠ [])
    (hhead : ∀ c ∈ cs.head?, ¬ isBlank c) (rest : List Char) :
    ∀ c ∈ (cs ++ rest).head?, ¬ isBlank c := by
  obtain ⟨d, cs, rfl⟩ := List.exists_cons_of_ne_nil hne
  exact hhead

lemma takeWhile_isBlank_eq_nil {cs : List Char} (hhead : ∀ c ∈ cs.head?, ¬ isBlank c) :
    cs.takeWhile isBlank = [] := by
  rcases cs with _ | ⟨d, cs⟩
  · rfl
  · exact List.takeWhile_cons_of_neg (hhead d rfl)

namespace Reader

/-- Where the recognisers refuse the text ahead, the scan fails at the place that they name. -/
lemma scan_of_refused {n : Nat} {cs : List Char} {cause : Cause}
    (h : Lexeme.token cs = ⟨n, .error cause⟩) (start : Nat) :
    ∃ r, (⟨start, [], cs⟩ : Reader).scan Lexeme.token = (.error ⟨cause, start + n⟩, r) := by
  have hlength := Lexeme.token_length_le cs
  rw [h] at hlength
  have hindex : (advanceBy ⟨start, [], cs⟩ n).index = start + n := by
    rw [index_advanceBy, Nat.min_eq_left hlength]
    rfl
  exact ⟨_, by simp only [scan, h, hindex]; rfl⟩

/-- Where they recognise a word, the scan cuts it out. -/
lemma scan_of_word {word rest : List Char} {kind : Token.Kind}
    (h : Lexeme.token (word ++ rest) = ⟨word.length, .ok kind⟩) (start : Nat) :
    (⟨start, [], word ++ rest⟩ : Reader).scan Lexeme.token =
      (.ok ⟨kind, String.ofList word, start⟩, ⟨start + word.length, [], rest⟩) := by
  refine scan_eq_ok_iff.2 ⟨_, kind, h, ?_⟩
  rw [cut_advanceBy, List.take_left, List.drop_left, List.length_append,
    Nat.min_eq_left (Nat.le_add_right _ _)]

end Reader

namespace Cutting

open Tokenizer

variable {start : Nat} {cs : List Char} {answer : Except Fault (List Token)}

/-- A cutting is what the tokenizer does, by induction on the cutting. -/
lemma tokens_eq (h : Cutting start cs answer) : (fresh start cs).tokens = answer := by
  induction h with
  | blank hgap => exact tokens_of_next_none (next_fresh_blank hgap)
  | refused hgap hne hhead htoken =>
    obtain ⟨r, hscan⟩ := Reader.scan_of_refused htoken _
    exact tokens_of_next_error
      (next_fresh_of_scan_error hgap (takeWhile_isBlank_eq_nil hhead) hne hscan)
  | @token start gap word rest kind answer hgap hne hhead htoken _ ih =>
    have hne' := List.append_ne_nil_of_left_ne_nil hne rest
    have hhead' := head?_append_not_blank hne hhead rest
    rw [tokens_of_next_ok (next_fresh_of_scan_ok hgap (takeWhile_isBlank_eq_nil hhead') hne'
      (Reader.scan_of_word htoken _)), ← ih]
    rfl

/-- Every text is cut in some way. -/
lemma exists_answer (start : Nat) (cs : List Char) : ∃ answer, Cutting start cs answer := by
  induction hlength : cs.length using Nat.strongRecOn generalizing start cs with
  | ind m ih =>
    subst hlength
    rcases blank_or_exists_gap cs with hblank | ⟨gap, cs, rfl, hgap, hne, hcs⟩
    · exact ⟨_, .blank hblank⟩
    have hhead := head?_of_takeWhile_eq_nil hcs (List.append_nil cs).symm hne
    have hle := Lexeme.token_length_le cs
    have hpos := Lexeme.token_length_pos hne
    rcases htoken : Lexeme.token cs with ⟨n, cause | kind⟩
    · exact ⟨_, .refused hgap hne hhead htoken⟩
    · rw [htoken] at hle hpos
      simp only at hle hpos
      have hword : (cs.take n).length = n := by rw [List.length_take, Nat.min_eq_left hle]
      have hne' : cs.take n ≠ [] := List.ne_nil_of_length_pos (by omega)
      have hhead' := head?_of_takeWhile_eq_nil hcs (List.take_append_drop n cs).symm hne'
      have hshorter : (cs.drop n).length < (gap ++ cs).length := by
        rw [List.length_drop, List.length_append]
        omega
      obtain ⟨answer, hanswer⟩ :=
        ih _ hshorter (start + gap.length + (cs.take n).length) (cs.drop n) rfl
      have hread : Lexeme.token (cs.take n ++ cs.drop n) = ⟨(cs.take n).length, .ok kind⟩ := by
        rw [List.take_append_drop, hword, htoken]
      have hcut := Cutting.token hgap hne' hhead' hread hanswer
      rw [List.take_append_drop] at hcut
      exact ⟨_, hcut⟩

/-- What a tokenizer finds is what the text is cut into. -/
theorem iff_tokens_eq : Cutting start cs answer ↔ (fresh start cs).tokens = answer := by
  refine ⟨tokens_eq, ?_⟩
  rintro rfl
  obtain ⟨answer, h⟩ := exists_answer start cs
  rwa [h.tokens_eq]

/-! ## Texts at a blank -/

/-- Blanks in front of a text make no difference to how it is cut. -/
lemma after_blanks {gap : List Char} (hgap : ∀ c ∈ gap, isBlank c)
    (h : Cutting (start + gap.length) cs answer) : Cutting start (gap ++ cs) answer := by
  cases h with
  | blank hgap' => exact .blank (List.forall_mem_append.2 ⟨hgap, hgap'⟩)
  | refused hgap' hne hhead htoken =>
    rw [← List.append_assoc, Nat.add_assoc start, ← List.length_append]
    exact .refused (List.forall_mem_append.2 ⟨hgap, hgap'⟩) hne hhead htoken
  | token hgap' hne hhead htoken hrest =>
    rw [Nat.add_assoc start, ← List.length_append] at hrest
    rw [← List.append_assoc, Nat.add_assoc start, ← List.length_append]
    exact .token (List.forall_mem_append.2 ⟨hgap, hgap'⟩) hne hhead htoken hrest

/-- A text that goes on with a blank is cut up to the blank, and then after it. -/
theorem append (h : Cutting start cs answer) {c : Char} (hc : isBlank c)
    (hends : isLineEnd c ∨ ∃ ts, answer = .ok ts) {rest : List Char}
    {answer' : Except Fault (List Token)} (h' : Cutting (start + cs.length + 1) rest answer') :
    Cutting start (cs ++ c :: rest) (answer.bind fun ts => answer'.map (ts ++ ·)) := by
  induction h with
  | @blank start gap hgap =>
    have hgap' : ∀ d ∈ gap ++ [c], isBlank d :=
      List.forall_mem_append.2 ⟨hgap, List.forall_mem_singleton.2 hc⟩
    have hcut : Cutting start (gap ++ [c] ++ rest) answer' := by
      refine after_blanks hgap' ?_
      rwa [List.length_append, List.length_singleton, ← Nat.add_assoc]
    rw [List.append_cons]
    cases answer' <;> exact hcut
  | refused hgap hne hhead htoken =>
    -- A text that is refused goes on unchanged only on another line.
    have hend : isLineEnd c := hends.elim id fun ⟨_, hts⟩ => absurd hts (by simp)
    rw [List.append_assoc]
    refine .refused hgap (List.append_ne_nil_of_left_ne_nil hne _)
      (head?_append_not_blank hne hhead _) ?_
    rw [Lexeme.token_append hne hc (.inl hend), htoken]
  | @token start gap word tail kind answer hgap hne hhead htoken _ ih =>
    have hread : Lexeme.token (word ++ (tail ++ c :: rest)) = ⟨word.length, .ok kind⟩ := by
      rw [← List.append_assoc, Lexeme.token_append (List.append_ne_nil_of_left_ne_nil hne _) hc
        (.inr ⟨kind, by rw [htoken]⟩), htoken]
    have hends' : isLineEnd c ∨ ∃ ts, answer = .ok ts := by
      refine hends.imp_right fun ⟨ts, hts⟩ => ?_
      obtain ⟨rest, hrest, -⟩ := exists_of_map_eq_ok hts
      exact ⟨rest, hrest⟩
    have hplace : start + gap.length + word.length + tail.length + 1 =
        start + (gap ++ (word ++ tail)).length + 1 := by
      simp only [List.length_append]
      omega
    have hcut := Cutting.token hgap hne hhead hread (ih hends' (hplace ▸ h'))
    rw [List.append_assoc, List.append_assoc]
    cases answer <;> cases answer' <;> exact hcut

end Cutting

/-! ## Places -/

/-- The token at a place `n` characters further on. -/
def Token.shift (n : Nat) (t : Token) : Token := { t with offset := t.offset + n }

/-- The fault at a place `n` characters further on. -/
def Fault.shift (n : Nat) (f : Fault) : Fault := { f with offset := f.offset + n }

namespace Cutting

variable {start : Nat} {cs : List Char} {answer : Except Fault (List Token)}

/-- The same text further on is cut in the same way. -/
theorem shift (h : Cutting start cs answer) (n : Nat) :
    Cutting (start + n) cs ((answer.map (List.map (Token.shift n))).mapError (Fault.shift n)) := by
  induction h with
  | blank hgap => exact .blank hgap
  | @refused start m gap cs cause hgap hne hhead htoken =>
    have hplace : start + n + gap.length + m = start + gap.length + m + n := by omega
    have hcut := @Cutting.refused (start + n) m gap cs cause hgap hne hhead htoken
    rwa [hplace] at hcut
  | @token start gap word rest kind answer hgap hne hhead htoken _ ih =>
    have hplace : start + gap.length + n = start + n + gap.length := by omega
    rw [Nat.add_right_comm, hplace] at ih
    have hcut := Cutting.token hgap hne hhead htoken ih
    rw [← hplace] at hcut
    cases answer <;> exact hcut

/-- A fault lies inside the text or at its end. -/
lemma offset_le (h : Cutting start cs answer) :
    ∀ f, answer = .error f → start ≤ f.offset ∧ f.offset ≤ start + cs.length := by
  induction h with
  | blank _ => simp
  | @refused start n gap cs cause _ _ _ htoken =>
    rintro f hf
    obtain rfl := Except.error.inj hf
    have hle := Lexeme.token_length_le cs
    rw [htoken] at hle
    simp only at hle ⊢
    rw [List.length_append]
    omega
  | @token start gap word rest kind answer _ _ _ _ _ ih =>
    intro f hf
    cases answer with
    | ok ts => exact absurd hf (by simp [Except.map])
    | error g =>
      obtain rfl : g = f := Except.error.inj hf
      have := ih g rfl
      simp only [List.length_append]
      omega

end Cutting

/-! ## Lines -/

/-- The characters `line` are a whole line of the text, without the character that ends it. -/
structure IsLine (text before line after : List Char) : Prop where
  split : text = before ++ (line ++ after)
  starts : ∀ c ∈ before.getLast?, isLineEnd c
  unbroken : ∀ c ∈ line, ¬ isLineEnd c
  ends : ∀ c ∈ after.head?, isLineEnd c

lemma isLine_self {cs : List Char} (h : ∀ c ∈ cs, ¬ isLineEnd c) : IsLine cs [] cs [] where
  split := (List.append_nil cs).symm
  starts := by simp
  unbroken := h
  ends := by simp

lemma isLine_first {cs : List Char} {c : Char} (h : ∀ d ∈ cs, ¬ isLineEnd d) (hc : isLineEnd c)
    (rest : List Char) : IsLine (cs ++ c :: rest) [] cs (c :: rest) where
  split := rfl
  starts := by simp
  unbroken := h
  ends := by simpa using hc

lemma IsLine.later {text before line after : List Char} (h : IsLine text before line after)
    {c : Char} (hc : isLineEnd c) (cs : List Char) :
    IsLine (cs ++ c :: text) (cs ++ c :: before) line after where
  split := by rw [h.split, List.append_assoc, List.cons_append]
  starts := by
    intro d hd
    rcases before with _ | ⟨b, before⟩
    · obtain rfl : c = d := by simpa using hd
      exact hc
    · refine h.starts d ?_
      rwa [List.getLast?_append_cons, List.getLast?_cons_cons] at hd
  unbroken := h.unbroken
  ends := h.ends

lemma line_or_exists_lineEnd (cs : List Char) :
    (∀ c ∈ cs, ¬ isLineEnd c) ∨
      ∃ line c rest, cs = line ++ c :: rest ∧ (∀ d ∈ line, ¬ isLineEnd d) ∧ isLineEnd c := by
  induction cs with
  | nil => exact .inl (List.forall_mem_nil _)
  | cons d cs ih =>
    by_cases hd : isLineEnd d
    · exact .inr ⟨[], d, cs, rfl, List.forall_mem_nil _, hd⟩
    rcases ih with hall | ⟨line, c, rest, rfl, hline, hc⟩
    · exact .inl (List.forall_mem_cons.2 ⟨hd, hall⟩)
    · exact .inr ⟨d :: line, c, rest, rfl, List.forall_mem_cons.2 ⟨hd, hline⟩, hc⟩

/-- Induction on the lines of a text, of which the last one is followed by nothing. -/
@[elab_as_elim]
theorem line_induction {motive : List Char → Prop}
    (last : ∀ cs, (∀ c ∈ cs, ¬ isLineEnd c) → motive cs)
    (more : ∀ line c rest, (∀ d ∈ line, ¬ isLineEnd d) → isLineEnd c → motive rest →
      motive (line ++ c :: rest)) (cs : List Char) : motive cs := by
  induction hlength : cs.length using Nat.strongRecOn generalizing cs with
  | ind m ih =>
    rcases line_or_exists_lineEnd cs with hall | ⟨line, c, rest, rfl, hline, hc⟩
    · exact last cs hall
    · have hshorter : rest.length < m := by
        rw [← hlength, List.length_append, List.length_cons]
        omega
      exact more line c rest hline hc (ih _ hshorter rest rfl)

namespace Cutting

variable {cs : List Char} {answer : Except Fault (List Token)}

lemma unique {start : Nat} {answer' : Except Fault (List Token)} (h : Cutting start cs answer)
    (h' : Cutting start cs answer') : answer = answer' :=
  h.tokens_eq.symm.trans h'.tokens_eq

/-- A text of several lines is cut like its first line, if that has a fault, or else like its first
line and the rest. -/
lemma cases_lineEnd {line rest : List Char} {c : Char} (hc : isLineEnd c)
    (h : Cutting 0 (line ++ c :: rest) answer) :
    (∃ fault, Cutting 0 line (.error fault) ∧ answer = .error fault) ∨
      ∃ ts answer', Cutting 0 line (.ok ts) ∧ Cutting 0 rest answer' ∧
        answer = ((answer'.map (List.map (Token.shift (line.length + 1)))).mapError
          (Fault.shift (line.length + 1))).map (ts ++ ·) := by
  obtain ⟨first, hfirst⟩ := exists_answer 0 line
  obtain ⟨answer', hrest⟩ := exists_answer 0 rest
  have hshift := hrest.shift (line.length + 1)
  have hanswer := h.unique
    (hfirst.append (Lexeme.isBlank_of_isLineEnd hc) (.inl hc) hshift)
  cases first with
  | error fault => exact .inl ⟨fault, hfirst, hanswer⟩
  | ok ts => exact .inr ⟨ts, answer', hfirst, hrest, hanswer⟩

end Cutting

lemma Token.shift_zero (t : Token) : t.shift 0 = t := by
  rw [Token.shift, Nat.add_zero]

lemma Token.shift_shift (m n : Nat) (t : Token) : (t.shift m).shift n = t.shift (m + n) := by
  rw [Token.shift, Token.shift, Token.shift, Nat.add_assoc]

lemma Fault.shift_zero (f : Fault) : f.shift 0 = f := by
  rw [Fault.shift, Nat.add_zero]

lemma Fault.shift_shift (m n : Nat) (f : Fault) : (f.shift m).shift n = f.shift (m + n) := by
  rw [Fault.shift, Fault.shift, Fault.shift, Nat.add_assoc]

namespace Cutting

/-- Every token of a text is a token of the line on which it stands. -/
theorem exists_line_of_mem {cs : List Char} {ts : List Token} (h : Cutting 0 cs (.ok ts))
    {t : Token} (ht : t ∈ ts) :
    ∃ before line after us u, IsLine cs before line after ∧ Cutting 0 line (.ok us) ∧
      u ∈ us ∧ t = u.shift before.length := by
  induction cs using line_induction generalizing ts t with
  | last cs hline => exact ⟨[], cs, [], ts, t, isLine_self hline, h, ht, t.shift_zero.symm⟩
  | more line c rest hline hc ih =>
    rcases h.cases_lineEnd hc with ⟨_, _, hfault⟩ | ⟨us, answer', hfirst, hrest, hanswer⟩
    · exact absurd hfault (by simp)
    rcases answer' with fault | vs
    · exact absurd hanswer (by simp [Except.map, Except.mapError])
    obtain rfl : ts = us ++ vs.map (Token.shift (line.length + 1)) := Except.ok.inj hanswer
    rcases List.mem_append.1 ht with hmem | hmem
    · exact ⟨[], line, c :: rest, us, t, isLine_first hline hc rest, hfirst, hmem,
        t.shift_zero.symm⟩
    · obtain ⟨v, hv, rfl⟩ := List.mem_map.1 hmem
      obtain ⟨before, line', after, us', u, hisLine, hcut, hu, rfl⟩ := ih hrest hv
      refine ⟨line ++ c :: before, line', after, us', u, hisLine.later hc line, hcut, hu, ?_⟩
      rw [Token.shift_shift, List.length_append, List.length_cons, Nat.add_left_comm]

/-- The fault of a text is the fault of the line on which it stands, and what comes before that
line has none. -/
theorem exists_line_of_fault {cs : List Char} {fault : Fault} (h : Cutting 0 cs (.error fault)) :
    ∃ before line after ts g, IsLine cs before line after ∧ Cutting 0 before (.ok ts) ∧
      Cutting 0 line (.error g) ∧ fault = g.shift before.length := by
  have hempty : Cutting 0 [] (.ok []) := .blank (List.forall_mem_nil _)
  induction cs using line_induction generalizing fault with
  | last cs hline =>
    exact ⟨[], cs, [], [], fault, isLine_self hline, hempty, h, fault.shift_zero.symm⟩
  | more line c rest hline hc ih =>
    rcases h.cases_lineEnd hc with ⟨g, hfirst, hfault⟩ | ⟨us, answer', hfirst, hrest, hanswer⟩
    · obtain rfl := Except.error.inj hfault
      exact ⟨[], line, c :: rest, [], fault, isLine_first hline hc rest, hempty, hfirst,
        fault.shift_zero.symm⟩
    rcases answer' with f | vs
    · obtain rfl : fault = f.shift (line.length + 1) := Except.error.inj hanswer
      obtain ⟨before, line', after, ts, g, hisLine, hbefore, hcut, rfl⟩ := ih hrest
      have hshift := hbefore.shift (line.length + 1)
      refine ⟨line ++ c :: before, line', after, _, g, hisLine.later hc line,
        hfirst.append (Lexeme.isBlank_of_isLineEnd hc) (.inl hc) hshift, hcut, ?_⟩
      rw [Fault.shift_shift, List.length_append, List.length_cons, Nat.add_left_comm]
    · exact absurd hanswer (by simp [Except.map, Except.mapError])

lemma iff_tokenize_eq {text : String} {answer : Except Fault (List Token)} :
    Cutting 0 text.toList answer ↔ tokenize text = answer :=
  iff_tokens_eq

lemma tokenize_ofList_eq {cs : List Char} {answer : Except Fault (List Token)}
    (h : Cutting 0 cs answer) : tokenize (String.ofList cs) = answer := by
  rw [← iff_tokenize_eq, String.toList_ofList]
  exact h

end Cutting

/-- A text with a blank in it is cut into the tokens before the blank and, further on, those after
it.  A fault after the blank is the fault of the text, and so is one before the blank if that blank
ends a line.  So each token is a token of its line, and lies in it, and the fault of a text is the
fault of its line, which lies in the line or at its end. -/
theorem tokenize_byLines :
    (∀ (a b : String) (c : Char), c ∈ blanks →
      (c = '\n' ∨ c = '\r' ∨ ∃ ts, tokenize a = .ok ts) →
        tokenize (a ++ String.singleton c ++ b) =
          match tokenize a, tokenize b with
          | .error fault, _ => .error fault
          | .ok _, .error fault => .error (fault.shift (a.length + 1))
          | .ok ts, .ok us => .ok (ts ++ us.map (Token.shift (a.length + 1)))) ∧
    (∀ text ts, tokenize text = .ok ts → ∀ t ∈ ts, ∃ before line after us u,
      IsLine text.toList before line after ∧ tokenize (String.ofList line) = .ok us ∧
        u ∈ us ∧ u.endOffset ≤ line.length ∧ t = u.shift before.length) ∧
    (∀ text fault, tokenize text = .error fault → ∃ before line after ts g,
      IsLine text.toList before line after ∧ tokenize (String.ofList before) = .ok ts ∧
        tokenize (String.ofList line) = .error g ∧ g.offset ≤ line.length ∧
        fault = g.shift before.length) := by
  refine ⟨fun a b c hc hends => ?_, fun text ts h t ht => ?_, fun text fault h => ?_⟩
  · obtain ⟨first, hfirst⟩ := Cutting.exists_answer 0 a.toList
    obtain ⟨second, hsecond⟩ := Cutting.exists_answer 0 b.toList
    have ha := Cutting.iff_tokenize_eq.1 hfirst
    have hb := Cutting.iff_tokenize_eq.1 hsecond
    have hends' : isLineEnd c ∨ ∃ ts, first = .ok ts := by
      rw [isLineEnd_iff, or_assoc, ← ha]
      exact hends
    have hcut := hfirst.append (isBlank_iff.2 hc) hends' (hsecond.shift (a.toList.length + 1))
    have htext : (a ++ String.singleton c ++ b).toList = a.toList ++ c :: b.toList := by simp
    rw [← Cutting.iff_tokenize_eq, htext, ha, hb, ← String.length_toList]
    cases first <;> cases second <;> exact hcut
  · obtain ⟨before, line, after, us, u, hline, hcut, hu, hshift⟩ :=
      (Cutting.iff_tokenize_eq.2 h).exists_line_of_mem ht
    have hpartition := (Tokenizer.tokens_eq_ok_iff.1 hcut.tokens_eq).partition
    exact ⟨before, line, after, us, u, hline, hcut.tokenize_ofList_eq, hu,
      (hpartition.slice u hu).1, hshift⟩
  · obtain ⟨before, line, after, ts, g, hline, hbefore, hcut, hshift⟩ :=
      (Cutting.iff_tokenize_eq.2 h).exists_line_of_fault
    have hplace := (hcut.offset_le g rfl).2
    rw [Nat.zero_add] at hplace
    exact ⟨before, line, after, ts, g, hline, hbefore.tokenize_ofList_eq, hcut.tokenize_ofList_eq,
      hplace, hshift⟩

theorem tokenize_byLines_unclosed :
    tokenize "say " = .ok [⟨.identifier, "say", 0⟩] ∧
    (∃ before line after us u, IsLine "say ".toList before line after ∧
      tokenize (String.ofList line) = .ok us ∧ u ∈ us ∧ u.endOffset ≤ line.length ∧
      (⟨.identifier, "say", 0⟩ : Token) = u.shift before.length) ∧
    tokenize ("say " ++ String.singleton '\n' ++ "\"a b") = .error ⟨.unterminatedString, 9⟩ ∧
    ∃ before line after ts g, IsLine "say \n\"a b".toList before line after ∧
      tokenize (String.ofList before) = .ok ts ∧ tokenize (String.ofList line) = .error g ∧
      g.offset ≤ line.length ∧ (⟨.unterminatedString, 9⟩ : Fault) = g.shift before.length := by
  have hfirst : tokenize "say " = .ok [⟨.identifier, "say", 0⟩] := by cbv
  have hsecond : tokenize "\"a b" = .error ⟨.unterminatedString, 4⟩ := by cbv
  have hwhole := tokenize_byLines.1 "say " "\"a b" '\n' (by decide) (.inl rfl)
  rw [hfirst, hsecond] at hwhole
  exact ⟨hfirst, tokenize_byLines.2.1 _ _ hfirst _ List.mem_cons_self, hwhole,
    tokenize_byLines.2.2 _ _ hwhole⟩

end LetDef
