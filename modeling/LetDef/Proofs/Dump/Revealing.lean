import Mathlib
import LetDef.Datum.Basic

/-!
# Texts that reveal what they were written for

Two trees that are written alike are alike.  That cannot be shown for a tree by itself, since its
text stands among others and nothing in front of it says how long it is.  So the statement is about
what follows as well: `Reveals u v P` says that if `u` and `v` begin the same text, then `P` holds
and what follows is the same.  In this form it passes from the parts of a text to the whole, and the
lemmas here are the steps on the way: characters of a class, a label in front, and the lines of a
list.

What follows is not arbitrary.  A number could be continued by further digits, so only what may
stand behind a value is admitted (`MayFollow`).
-/

namespace LetDef

/-- What may stand behind a value: a comma, the end of what it is tagged on to, a line break. -/
def MayFollow (rest : List Char) : Prop :=
  ∀ c ∈ rest.head?, c = ',' ∨ c = ')' ∨ c = '\n'

/-- If the two texts begin the same text, `P` holds and what follows them is the same. -/
def Reveals (u v : List Char) (P : Prop) : Prop :=
  ∀ ⦃r r' : List Char⦄, MayFollow r → MayFollow r' → u ++ r = v ++ r' → P ∧ r = r'

variable {u v r r' : List Char} {P Q : Prop}

/-! ## Steps -/

lemma mayFollow_cons {c : Char} (h : c = ',' ∨ c = ')' ∨ c = '\n') (rest : List Char) :
    MayFollow (c :: rest) := by
  intro d hd
  obtain rfl : c = d := Option.some.inj hd
  exact h

lemma mayFollow_comma (rest : List Char) : MayFollow ([','] ++ rest) :=
  mayFollow_cons (.inl rfl) rest

lemma mayFollow_paren (rest : List Char) : MayFollow ([')'] ++ rest) :=
  mayFollow_cons (.inr (.inl rfl)) rest

namespace Reveals

/-- Without anything behind them. -/
lemma holds (h : Reveals u v P) (heq : u = v) : P := by
  have hnil : MayFollow [] := fun c hc => absurd hc (by simp)
  exact (h hnil hnil (by rw [heq])).1

lemma imp (h : Reveals u v P) (hPQ : P → Q) : Reveals u v Q := by
  intro r r' hr hr' heq
  obtain ⟨hP, hrest⟩ := h hr hr' heq
  exact ⟨hPQ hP, hrest⟩

lemma refl (u : List Char) (hP : P) : Reveals u u P :=
  fun _ _ _ _ heq => ⟨hP, List.append_cancel_left heq⟩

/-- Texts that no text can both begin with reveal anything. -/
lemma of_ne (h : ∀ r r' : List Char, u ++ r ≠ v ++ r') : Reveals u v P :=
  fun r r' _ _ heq => absurd heq (h r r')

/-- The same text in front changes nothing. -/
lemma append_left (w : List Char) (h : Reveals u v P) : Reveals (w ++ u) (w ++ v) P := by
  intro r r' hr hr' heq
  rw [List.append_assoc, List.append_assoc] at heq
  exact h hr hr' (List.append_cancel_left heq)

lemma cons (c : Char) (h : Reveals u v P) : Reveals (c :: u) (c :: v) P :=
  append_left [c] h

/-- The same text behind changes nothing if it may stand there. -/
lemma append_right {w : List Char} (hw : ∀ r, MayFollow (w ++ r)) (h : Reveals u v P) :
    Reveals (u ++ w) (v ++ w) P := by
  intro r r' _ _ heq
  rw [List.append_assoc, List.append_assoc] at heq
  obtain ⟨hP, hrest⟩ := h (hw r) (hw r') heq
  exact ⟨hP, List.append_cancel_left hrest⟩

end Reveals

/-! ## Characters of a class -/

/-- Characters of a class in front and another one behind them are taken apart at the place
between. -/
lemma span_of_class {p : Char → Bool} (hu : ∀ c ∈ u, p c) (hr : ∀ c ∈ r.head?, p c = false) :
    (u ++ r).takeWhile p = u ∧ (u ++ r).dropWhile p = r := by
  rw [List.takeWhile_append_of_pos hu, List.dropWhile_append_of_pos hu]
  cases r with
  | nil => exact ⟨List.append_nil u, rfl⟩
  | cons c r =>
    have hc : ¬ p c = true := Bool.not_eq_true _ ▸ hr c rfl
    rw [List.takeWhile_cons_of_neg hc, List.dropWhile_cons_of_neg hc, List.append_nil]
    exact ⟨rfl, rfl⟩

/-- So the place is determined. -/
lemma append_inj_of_class {p : Char → Bool} (hu : ∀ c ∈ u, p c) (hv : ∀ c ∈ v, p c)
    (hr : ∀ c ∈ r.head?, p c = false) (hr' : ∀ c ∈ r'.head?, p c = false)
    (h : u ++ r = v ++ r') : u = v ∧ r = r' := by
  obtain ⟨htake, hdrop⟩ := span_of_class hu hr
  obtain ⟨htake', hdrop'⟩ := span_of_class hv hr'
  rw [h] at htake hdrop
  exact ⟨htake.symm.trans htake', hdrop.symm.trans hdrop'⟩

/-- Characters of a class that nothing behind a value belongs to. -/
lemma reveals_of_class {p : Char → Bool} (hu : ∀ c ∈ u, p c) (hv : ∀ c ∈ v, p c)
    (hp : p ',' = false ∧ p ')' = false ∧ p '\n' = false) : Reveals u v (u = v) := by
  have houtside : ∀ {s : List Char}, MayFollow s → ∀ c ∈ s.head?, p c = false := by
    intro s hs c hc
    rcases hs c hc with rfl | rfl | rfl
    · exact hp.1
    · exact hp.2.1
    · exact hp.2.2
  intro r r' hr hr' heq
  exact append_inj_of_class hu hv (houtside hr) (houtside hr') heq

/-! ## Lines -/

/-- The lines of the items of a list, each with a comma at its end. -/
def itemLines (width depth : Nat) (items : List (List Char)) : List Char :=
  items.flatMap fun item => Datum.newLine width depth ++ (item ++ [','])

/-- A list, with its items further in than its last line. -/
def bracketed (width depth : Nat) (items : List (List Char)) : List Char :=
  if items.isEmpty then "[]".toList
  else '[' :: (itemLines width (depth + 1) items ++ (Datum.newLine width depth ++ [']']))

variable {width depth : Nat} {items items' : List (List Char)}

/-- The last line of a list does not stand as far in as those of the items. -/
lemma newLine_append_ne (hwidth : 0 < width) {c : Char} (hc : c ≠ ' ') (s t : List Char) :
    Datum.newLine width depth ++ c :: s ≠ Datum.newLine width (depth + 1) ++ t := by
  obtain ⟨k, hk⟩ : ∃ k, width * (depth + 1) = width * depth + (k + 1) :=
    ⟨width - 1, by rw [Nat.mul_add, Nat.mul_one]; omega⟩
  intro h
  rw [Datum.newLine, Datum.newLine, hk, List.replicate_add, List.replicate_succ, List.cons_append,
    List.cons_append, List.append_assoc] at h
  have hrest := List.append_cancel_left (List.cons.inj h).2
  exact hc (List.cons.inj hrest).1

/-- The lines of two lists, with the last line of each behind them. -/
def LinesReveal (width depth : Nat) (items items' : List (List Char)) (P : Prop) : Prop :=
  ∀ ⦃r r' : List Char⦄,
    itemLines width (depth + 1) items ++ (Datum.newLine width depth ++ ']' :: r) =
      itemLines width (depth + 1) items' ++ (Datum.newLine width depth ++ ']' :: r') →
    P ∧ r = r'

namespace LinesReveal

lemma nil (hP : P) : LinesReveal width depth [] [] P := by
  intro r r' heq
  have hbehind : ']' :: r = ']' :: r' := List.append_cancel_left (List.append_cancel_left heq)
  exact ⟨hP, (List.cons.inj hbehind).2⟩

lemma nil_cons (hwidth : 0 < width) (v : List Char) (items' : List (List Char)) :
    LinesReveal width depth [] (v :: items') P := by
  intro r r' heq
  rw [itemLines, itemLines, List.flatMap_nil, List.nil_append, List.flatMap_cons,
    List.append_assoc, List.append_assoc] at heq
  exact absurd heq (newLine_append_ne hwidth (by decide) _ _)

lemma symm (h : LinesReveal width depth items items' P) :
    LinesReveal width depth items' items P := by
  intro r r' heq
  obtain ⟨hP, hrest⟩ := h heq.symm
  exact ⟨hP, hrest.symm⟩

lemma cons (h : Reveals u v P) (hs : LinesReveal width depth items items' Q) :
    LinesReveal width depth (u :: items) (v :: items') (P ∧ Q) := by
  intro r r' heq
  simp only [itemLines, List.flatMap_cons, List.append_assoc, List.append_cancel_left_eq] at heq
  obtain ⟨hP, hrest⟩ := h (mayFollow_comma _) (mayFollow_comma _) heq
  obtain ⟨hQ, hrest⟩ := hs (List.append_cancel_left hrest)
  exact ⟨⟨hP, hQ⟩, hrest⟩

/-- Lists whose items reveal relations between what they stand for. -/
lemma of_forall {α β : Type} {f : α → List Char} {g : β → List Char} {R : α → β → Prop}
    (hwidth : 0 < width) (h : ∀ a b, Reveals (f a) (g b) (R a b)) (as : List α) (bs : List β) :
    LinesReveal width depth (as.map f) (bs.map g) (List.Forall₂ R as bs) := by
  induction as generalizing bs with
  | nil =>
    cases bs with
    | nil => exact nil .nil
    | cons b bs => exact nil_cons hwidth _ _
  | cons a as ih =>
    cases bs with
    | nil => exact (nil_cons hwidth _ _).symm
    | cons b bs =>
      intro r r' heq
      obtain ⟨⟨hhead, htail⟩, hrest⟩ := cons (h a b) (ih bs) heq
      exact ⟨.cons hhead htail, hrest⟩

end LinesReveal

/-- The lines of a list reveal what the whole list does. -/
lemma reveals_bracketed (h : LinesReveal width depth items items' P) :
    Reveals (bracketed width depth items) (bracketed width depth items') P := by
  have hdiffer : ∀ (w : List Char) (ws : List (List Char)) (s t : List Char),
      bracketed width depth [] ++ s ≠ bracketed width depth (w :: ws) ++ t := by
    intro w ws s t heq
    have hsecond : ']' = '\n' := (List.cons.inj (List.cons.inj heq).2).1
    exact absurd hsecond (by decide)
  cases items with
  | nil =>
    cases items' with
    | nil => exact .refl _ (@h [] [] rfl).1
    | cons w ws => exact .of_ne (hdiffer w ws)
  | cons w ws =>
    cases items' with
    | nil => exact .of_ne fun s t heq => hdiffer w ws t s heq.symm
    | cons w' ws' =>
      intro r r' _ _ heq
      simp only [bracketed, List.isEmpty_cons, Bool.false_eq_true, if_false, List.append_assoc,
        List.cons_append, List.nil_append, List.cons.injEq, true_and] at heq
      exact h heq

end LetDef
