import LetDef.Proofs.Dump.Revealing
import LetDef.Proofs.Printing.Values
import LetDef.Datum.Debug
import LetDef.Datum.Ron

/-!
# Leaves are revealed

Numbers, characters and texts are the leaves of the trees that are written down, and the text of a
leaf reveals it.  Whole numbers are read back.  In quoted text the difficulty is to see where a
character ends: an escape may be a backslash with a letter or a code point between braces, and the
quote that ends the text may also stand in it.  A spelling of characters is `Legible` if each
character ends where its own spelling says, and none begins with the quote.
-/

namespace LetDef

variable {r r' : List Char}

/-! ## Whole numbers -/

namespace Numeral

lemma ofNat_injective : Function.Injective ofNat := by
  intro m n h
  have hread := natural?_ofNat m
  rw [h, natural?_ofNat] at hread
  exact (Option.some.inj hread).symm

lemma ofInt_injective : Function.Injective ofInt := by
  intro i j h
  have hread := integer?_ofInt i
  rw [h, integer?_ofInt] at hread
  exact (Option.some.inj hread).symm

lemma reveals_ofNat (m n : Nat) : Reveals (ofNat m) (ofNat n) (m = n) :=
  (reveals_of_class (fun _ => isDigit_of_mem_ofNat) (fun _ => isDigit_of_mem_ofNat)
    ⟨rfl, rfl, rfl⟩).imp fun h => ofNat_injective h

/-- The characters that integers are written with. -/
def isSignOrDigit (c : Char) : Bool := c = '-' || c.isDigit

lemma isSignOrDigit_of_mem_ofInt {c : Char} {i : Int} (h : c ∈ ofInt i) : isSignOrDigit c := by
  rw [ofInt_eq] at h
  rw [isSignOrDigit, Bool.or_eq_true, decide_eq_true_iff]
  rcases List.mem_append.1 h with hsign | hdigit
  · split at hsign
    · exact .inl (List.mem_singleton.1 hsign)
    · exact absurd hsign List.not_mem_nil
  · exact .inr (isDigit_of_mem_ofNat hdigit)

lemma reveals_ofInt (i j : Int) : Reveals (ofInt i) (ofInt j) (i = j) :=
  (reveals_of_class (fun _ => isSignOrDigit_of_mem_ofInt) (fun _ => isSignOrDigit_of_mem_ofInt)
    ⟨rfl, rfl, rfl⟩).imp fun h => ofInt_injective h

/-- An integer ends where a character stands that no integer is written with. -/
lemma ofInt_append_inj {c : Char} (hc : isSignOrDigit c = false) {i j : Int}
    (h : ofInt i ++ c :: r = ofInt j ++ c :: r') : i = j ∧ r = r' := by
  have hhead : ∀ s : List Char, ∀ d ∈ (c :: s).head?, isSignOrDigit d = false := by
    intro s d hd
    obtain rfl : c = d := Option.some.inj hd
    exact hc
  obtain ⟨hnumber, hrest⟩ := append_inj_of_class (fun _ => isSignOrDigit_of_mem_ofInt)
    (fun _ => isSignOrDigit_of_mem_ofInt) (hhead r) (hhead r') h
  exact ⟨ofInt_injective hnumber, (List.cons.inj hrest).2⟩

end Numeral

/-- A natural number is known from its digits to a large base. -/
lemma limbs_injective : Function.Injective limbs := by
  intro m
  induction m using Nat.strong_induction_on with
  | _ m ih =>
    intro n h
    rw [limbs, limbs.eq_def n] at h
    by_cases hm : m = 0 <;> by_cases hn : n = 0
    · rw [hm, hn]
    · rw [dif_pos hm, dif_neg hn] at h
      exact absurd h (List.cons_ne_nil _ _).symm
    · rw [dif_neg hm, dif_pos hn] at h
      exact absurd h (List.cons_ne_nil _ _)
    · rw [dif_neg hm, dif_neg hn] at h
      obtain ⟨hlow, hhigh⟩ := List.cons.inj h
      have hdiv := ih (m / 0x100000000) (by omega) hhigh
      omega

/-! ## Quoted text -/

/-- A spelling of characters that tells where each of them ends, and that can be put between two
copies of the quote. -/
structure Legible (quote : Char) (spell : Char → List Char) : Prop where
  inj : ∀ {c d : Char} {r r' : List Char},
    spell c ++ r = spell d ++ r' → c = d ∧ r = r'
  ne_quote : ∀ (c : Char) (r r' : List Char), spell c ++ r ≠ quote :: r'

section Quoted

variable {quote : Char} {spell : Char → List Char}

lemma Legible.flatMap_inj (h : Legible quote spell) {cs ds : List Char}
    (heq : cs.flatMap spell ++ quote :: r = ds.flatMap spell ++ quote :: r') :
    cs = ds ∧ r = r' := by
  induction cs generalizing ds with
  | nil =>
    cases ds with
    | nil => exact ⟨rfl, (List.cons.inj heq).2⟩
    | cons d ds =>
      rw [List.flatMap_cons, List.append_assoc] at heq
      exact absurd heq.symm (h.ne_quote d _ _)
  | cons c cs ih =>
    cases ds with
    | nil =>
      rw [List.flatMap_cons, List.append_assoc] at heq
      exact absurd heq (h.ne_quote c _ _)
    | cons d ds =>
      simp only [List.flatMap_cons, List.append_assoc] at heq
      obtain ⟨rfl, htail⟩ := h.inj heq
      obtain ⟨rfl, hrest⟩ := ih htail
      exact ⟨rfl, hrest⟩

/-- Quoted text reveals what was spelled. -/
theorem Legible.reveals_quoted (h : Legible quote spell) (cs ds : List Char) :
    Reveals (Text.quoted quote (cs.flatMap spell)) (Text.quoted quote (ds.flatMap spell))
      (cs = ds) := by
  intro r r' _ _ heq
  simp only [Text.quoted, List.cons_append, List.append_assoc, List.nil_append, List.cons.injEq,
    true_and] at heq
  exact h.flatMap_inj heq

end Quoted

/-! ### Escapes -/

namespace Text

/-- The characters of a hexadecimal number. -/
lemma ne_brace_of_mem_toDigits {n : Nat} : ∀ c ∈ Nat.toDigits 16 n, c ≠ '\x7d' := by
  induction n using Nat.strong_induction_on with
  | _ n ih =>
    have hdigit : ∀ k < 16, Nat.digitChar k ≠ '\x7d' := by decide
    intro c hc
    rw [Nat.toDigits_eq_if (by decide)] at hc
    split at hc
    case isTrue hlt =>
      rw [List.mem_singleton.1 hc]
      exact hdigit n hlt
    case isFalse hge =>
      rcases List.mem_append.1 hc with hfront | hlast
      · exact ih (n / 16) (by omega) c hfront
      · rw [List.mem_singleton.1 hlast]
        exact hdigit (n % 16) (by omega)

lemma toDigits_sixteen_injective : Function.Injective (Nat.toDigits 16) := by
  have hdigit : ∀ k < 16, ∀ l < 16, Nat.digitChar k = Nat.digitChar l → k = l := by decide
  -- a number with one digit and one with more
  have hlength : ∀ (k : Nat) (c d : Char), [] ++ [c] ≠ Nat.toDigits 16 k ++ [d] := by
    intro k c d h
    exact Nat.toDigits_ne_nil (List.append_inj' h rfl).1.symm
  intro m
  induction m using Nat.strong_induction_on with
  | _ m ih =>
    intro n h
    rw [Nat.toDigits_eq_if (n := m) (by decide), Nat.toDigits_eq_if (n := n) (by decide)] at h
    by_cases hm : m < 16 <;> by_cases hn : n < 16
    · rw [if_pos hm, if_pos hn] at h
      exact hdigit m hm n hn (List.cons.inj h).1
    · rw [if_pos hm, if_neg hn] at h
      exact absurd h (hlength _ _ _)
    · rw [if_neg hm, if_pos hn] at h
      exact absurd h.symm (hlength _ _ _)
    · rw [if_neg hm, if_neg hn] at h
      obtain ⟨hfront, hlast⟩ := List.append_inj' h rfl
      have hdiv := ih (m / 16) (by omega) hfront
      have hmod := hdigit (m % 16) (by omega) (n % 16) (by omega) (List.cons.inj hlast).1
      omega

lemma codePointEscape_append (c : Char) (r : List Char) :
    codePointEscape c ++ r = '\\' :: 'u' :: '\x7b' :: (Nat.toDigits 16 c.toNat ++ '\x7d' :: r) := by
  rw [codePointEscape, List.append_assoc, List.append_assoc]
  rfl

lemma codePointEscape_inj {c d : Char} (h : codePointEscape c ++ r = codePointEscape d ++ r') :
    c = d ∧ r = r' := by
  rw [codePointEscape_append, codePointEscape_append] at h
  have hdigits : ∀ c, ∀ x ∈ Nat.toDigits 16 c, decide (x ≠ '\x7d') = true :=
    fun c x hx => decide_eq_true (ne_brace_of_mem_toDigits x hx)
  have hbrace : ∀ s : List Char, ∀ x ∈ ('\x7d' :: s).head?, decide (x ≠ '\x7d') = false := by
    intro s x hx
    obtain rfl : '\x7d' = x := Option.some.inj hx
    rfl
  have hbehind := (List.cons.inj (List.cons.inj (List.cons.inj h).2).2).2
  obtain ⟨hcode, hrest⟩ :=
    append_inj_of_class (hdigits _) (hdigits _) (hbrace r) (hbrace r') hbehind
  exact ⟨Char.toNat_inj.1 (toDigits_sixteen_injective hcode), (List.cons.inj hrest).2⟩

/-- The character that a letter behind a backslash stands for. -/
def letterValue (letter : Char) : Char :=
  if letter = '0' then '\x00'
  else if letter = 't' then '\t'
  else if letter = 'r' then '\r'
  else if letter = 'n' then '\n'
  else letter

/-- The three ways to spell a character: as itself, with a letter behind a backslash, or by its code
point. -/
lemma escapeChar_cases {quotes : List Char} (hquotes : ∀ q ∈ quotes, q = '"' ∨ q = '\'')
    (c : Char) :
    (c ≠ '\\' ∧ c ∉ quotes ∧ escapeChar quotes c = [c]) ∨
    (∃ letter, escapeChar quotes c = ['\\', letter] ∧ letter ≠ 'u' ∧ letterValue letter = c) ∨
    escapeChar quotes c = codePointEscape c := by
  unfold escapeChar
  by_cases hnull : c = '\x00'
  · exact .inr (.inl ⟨'0', by rw [if_pos hnull], by decide, hnull.symm⟩)
  by_cases htab : c = '\t'
  · exact .inr (.inl ⟨'t', by rw [if_neg hnull, if_pos htab], by decide, htab.symm⟩)
  by_cases hreturn : c = '\r'
  · exact .inr (.inl ⟨'r', by rw [if_neg hnull, if_neg htab, if_pos hreturn], by decide,
      hreturn.symm⟩)
  by_cases hfeed : c = '\n'
  · exact .inr (.inl ⟨'n', by rw [if_neg hnull, if_neg htab, if_neg hreturn, if_pos hfeed],
      by decide, hfeed.symm⟩)
  rw [if_neg hnull, if_neg htab, if_neg hreturn, if_neg hfeed]
  by_cases hself : c = '\\' ∨ c ∈ quotes
  · have hvalue : c ≠ 'u' ∧ letterValue c = c := by
      have hcases : c = '\\' ∨ c = '"' ∨ c = '\'' := hself.imp_right (hquotes c)
      rcases hcases with rfl | rfl | rfl <;> decide
    exact .inr (.inl ⟨c, if_pos hself, hvalue⟩)
  rw [if_neg hself]
  by_cases hobscure : isObscure c = true
  · exact .inr (.inr (if_pos hobscure))
  · rw [not_or] at hself
    exact .inl ⟨hself.1, hself.2, if_neg hobscure⟩

/-- Escapes are legible between quotes that they put a backslash in front of. -/
theorem legible_escapeChar {quotes : List Char} (hquotes : ∀ q ∈ quotes, q = '"' ∨ q = '\'')
    {quote : Char} (hquote : quote ∈ quotes) : Legible quote (escapeChar quotes) where
  inj := by
    intro c d r r' h
    rcases escapeChar_cases hquotes c with ⟨hc, -, hraw⟩ | ⟨x, hx, hxu, hxc⟩ | hcode <;>
    rcases escapeChar_cases hquotes d with ⟨hd, -, hraw'⟩ | ⟨y, hy, hyu, hyd⟩ | hcode'
    · rw [hraw, hraw'] at h
      exact List.cons.inj h
    · rw [hraw, hy] at h
      exact absurd (List.cons.inj h).1 hc
    · rw [hraw, hcode', codePointEscape_append] at h
      exact absurd (List.cons.inj h).1 hc
    · rw [hx, hraw'] at h
      exact absurd (List.cons.inj h).1.symm hd
    · rw [hx, hy] at h
      obtain ⟨hletter, hrest⟩ := List.cons.inj (List.cons.inj h).2
      exact ⟨by rw [← hxc, ← hyd, hletter], hrest⟩
    · rw [hx, hcode', codePointEscape_append] at h
      exact absurd (List.cons.inj (List.cons.inj h).2).1 hxu
    · rw [hcode, hraw', codePointEscape_append] at h
      exact absurd (List.cons.inj h).1.symm hd
    · rw [hcode, hy, codePointEscape_append] at h
      exact absurd (List.cons.inj (List.cons.inj h).2).1.symm hyu
    · rw [hcode, hcode'] at h
      exact codePointEscape_inj h
  ne_quote := by
    intro c r r' h
    have hslash : '\\' ≠ quote := by
      rcases hquotes quote hquote with rfl | rfl <;> decide
    rcases escapeChar_cases hquotes c with ⟨-, hc, hraw⟩ | ⟨x, hx, -⟩ | hcode
    · rw [hraw] at h
      exact hc ((List.cons.inj h).1 ▸ hquote)
    · rw [hx] at h
      exact hslash (List.cons.inj h).1
    · rw [hcode, codePointEscape_append] at h
      exact hslash (List.cons.inj h).1

/-- A backslash in front of backslashes and single quotes, and no other escapes. -/
def slashed (c : Char) : List Char :=
  if c = '\\' ∨ c = '\'' then ['\\', c] else [c]

theorem legible_slashed : Legible '\'' slashed where
  inj := by
    intro c d r r' h
    unfold slashed at h
    split at h <;> rename_i hc <;> split at h <;> rename_i hd
    · exact List.cons.inj (List.cons.inj h).2
    · exact absurd (.inl (List.cons.inj h).1.symm) hd
    · exact absurd (.inl (List.cons.inj h).1) hc
    · exact List.cons.inj h
  ne_quote := by
    intro c r r' h
    unfold slashed at h
    split at h
    · exact absurd (List.cons.inj h).1 (by decide)
    · next hc => exact hc (.inr (List.cons.inj h).1)

end Text

end LetDef
