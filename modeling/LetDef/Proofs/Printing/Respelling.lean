import LetDef.Proofs.Grammar.Decoding

/-!
# Spellings of one value

Two literals of one kind may spell the same value.  `Respelled` says which do: numbers whose digits
are the same but for zeros in front and whose signs are the same but for a plus, where the sign of a
zero does not count, and quoted texts whose units stand for the same characters.  The digits behind
a point have to be the same, because decimals are told apart by how many there are.

That these are all is `respelled_of_hasValue`.  What numbers have to say about it is that digits
are determined by the number they write, but for zeros in front
(`significant_eq_of_digitsValue_eq`).
-/

namespace LetDef

/-- The digits without the zeros in front. -/
def significant (ds : List Char) : List Char :=
  ds.dropWhile (· = '0')

/-- The signs are the same but for a plus, or the digits are those of a zero. -/
def SameSign (s s' ds : List Char) : Prop :=
  (s = ['-'] ↔ s' = ['-']) ∨ significant ds = []

/-- Two literals of a kind are the same or spell the same value. -/
inductive Respelled : Token.Kind → List Char → List Char → Prop where
  | same {k : Token.Kind} {w : List Char} : Respelled k w w
  | integer {s s' ds ds' : List Char} :
      IsSignPart s → IsSignPart s' → IsDigits ds → IsDigits ds' →
      significant ds = significant ds' → SameSign s s' ds →
      Respelled .integer (s ++ ds) (s' ++ ds')
  | decimal {s s' ds ds' fs : List Char} :
      IsSignPart s → IsSignPart s' → IsDigits ds → IsDigits ds' → IsDigits fs →
      significant ds = significant ds' → SameSign s s' (ds ++ fs) →
      Respelled .decimal (s ++ ds ++ '.' :: fs) (s' ++ ds' ++ '.' :: fs)
  | character {u u' : List Char} {c : Char} : UnitValue u c → UnitValue u' c →
      Respelled .character ('\'' :: (u ++ ['\''])) ('\'' :: (u' ++ ['\'']))
  | string {us us' cs : List Char} : UnitValues us cs → UnitValues us' cs →
      Respelled .string ('"' :: (us ++ ['"'])) ('"' :: (us' ++ ['"']))

/-! ## Digits -/

/-- The value of a single digit. -/
def digitValue (d : Char) : Nat := d.toNat - '0'.toNat

lemma digitValue_lt {d : Char} (h : d.isDigit) : digitValue d < 10 := by
  simp only [Char.isDigit, Bool.and_eq_true, decide_eq_true_eq, UInt32.le_iff_toNat_le] at h
  simp only [digitValue, Char.toNat]
  simp only [Char.reduceVal, UInt32.reduceToNat] at h ⊢
  omega

lemma digitValue_injective {d e : Char} (hd : d.isDigit) (he : e.isDigit)
    (h : digitValue d = digitValue e) : d = e := by
  simp only [Char.isDigit, Bool.and_eq_true, decide_eq_true_eq, UInt32.le_iff_toNat_le] at hd he
  simp only [digitValue, Char.toNat] at h
  simp only [Char.reduceVal, UInt32.reduceToNat] at hd he h
  apply Char.ext
  apply UInt32.toNat_inj.1
  omega

/-- The values of the digits, the last digit first. -/
def digitValues (ds : List Char) : List Nat :=
  ds.reverse.map digitValue

lemma digitsValue_eq_ofDigits (ds : List Char) :
    digitsValue ds = Nat.ofDigits 10 (digitValues ds) := rfl

lemma digitValues_lt {ds : List Char} (h : ∀ d ∈ ds, d.isDigit) : ∀ n ∈ digitValues ds, n < 10 := by
  intro n hn
  obtain ⟨d, hd, rfl⟩ := List.mem_map.1 hn
  exact digitValue_lt (h d (List.mem_reverse.1 hd))

lemma eq_of_map_digitValue_eq {ds es : List Char} (hds : ∀ d ∈ ds, d.isDigit)
    (hes : ∀ e ∈ es, e.isDigit) (h : ds.map digitValue = es.map digitValue) : ds = es := by
  induction ds generalizing es with
  | nil => exact (List.map_eq_nil_iff.1 h.symm).symm
  | cons d ds ih =>
    obtain ⟨e, es, rfl, hvalue, hvalues⟩ := List.map_eq_cons_iff.1 h.symm
    obtain ⟨hd, hds⟩ := List.forall_mem_cons.1 hds
    obtain ⟨he, hes⟩ := List.forall_mem_cons.1 hes
    rw [digitValue_injective he hd hvalue, ih hds hes hvalues.symm]

lemma eq_of_digitValues_eq {ds es : List Char} (hds : ∀ d ∈ ds, d.isDigit)
    (hes : ∀ e ∈ es, e.isDigit) (h : digitValues ds = digitValues es) : ds = es := by
  refine List.reverse_injective (eq_of_map_digitValue_eq ?_ ?_ h)
  · exact fun d hd => hds d (List.mem_reverse.1 hd)
  · exact fun e he => hes e (List.mem_reverse.1 he)

lemma digitsValue_append (ds es : List Char) :
    digitsValue (ds ++ es) = digitsValue es + 10 ^ es.length * digitsValue ds := by
  simp only [digitsValue_eq_ofDigits, digitValues, List.reverse_append, List.map_append,
    Nat.ofDigits_append, List.length_map, List.length_reverse]

lemma digitsValue_lt {ds : List Char} (h : ∀ d ∈ ds, d.isDigit) :
    digitsValue ds < 10 ^ ds.length := by
  have hlt := Nat.ofDigits_lt_base_pow_length (by decide : 1 < 10) (digitValues_lt h)
  rwa [digitValues, List.length_map, List.length_reverse] at hlt

/-- As many digits are determined by the number that they write. -/
lemma eq_of_length_eq {ds es : List Char} (hds : ∀ d ∈ ds, d.isDigit) (hes : ∀ e ∈ es, e.isDigit)
    (hlength : ds.length = es.length) (h : digitsValue ds = digitsValue es) : ds = es := by
  refine eq_of_digitValues_eq hds hes (Nat.ofDigits_inj_of_len_eq (by decide : 1 < 10) ?_
    (digitValues_lt hds) (digitValues_lt hes) h)
  simp only [digitValues, List.length_map, List.length_reverse, hlength]

/-! ### Zeros in front -/

lemma isDigit_significant {ds : List Char} (h : ∀ d ∈ ds, d.isDigit) :
    ∀ d ∈ significant ds, d.isDigit :=
  fun d hd => h d ((List.dropWhile_sublist _).subset hd)

lemma digitsValue_significant (ds : List Char) : digitsValue (significant ds) = digitsValue ds := by
  induction ds with
  | nil => rfl
  | cons d ds ih =>
    by_cases hd : d = '0'
    · have hzero : digitsValue ('0' :: ds) = digitsValue ds := by
        rw [← List.singleton_append, digitsValue_append]
        exact Nat.add_zero _
      rw [hd, hzero, ← ih]
      rfl
    · rw [significant, List.dropWhile_cons_of_neg (by simpa using hd)]

/-- The digits of the number that significant digits write are those digits. -/
lemma digits_digitsValue {ds : List Char} (h : ∀ d ∈ ds, d.isDigit) :
    Nat.digits 10 (digitsValue ds) = digitValues (significant ds) := by
  rw [← digitsValue_significant, digitsValue_eq_ofDigits]
  refine Nat.digits_ofDigits 10 (by decide) _ (digitValues_lt (isDigit_significant h)) fun hne => ?_
  have hsignificant : significant ds ≠ [] := fun hnil => hne (by rw [hnil]; rfl)
  have hhead := List.head_dropWhile_not (fun d : Char => decide (d = '0')) hsignificant
  have hdigit := isDigit_significant h _ (List.head_mem hsignificant)
  simp only [digitValues, List.getLast_map, List.getLast_reverse]
  intro hzero
  exact of_decide_eq_false hhead (digitValue_injective hdigit (by decide : '0'.isDigit) hzero)

/-- Digits are determined by the number that they write, but for zeros in front. -/
theorem significant_eq_of_digitsValue_eq {ds es : List Char} (hds : ∀ d ∈ ds, d.isDigit)
    (hes : ∀ e ∈ es, e.isDigit) (h : digitsValue ds = digitsValue es) :
    significant ds = significant es := by
  refine eq_of_digitValues_eq (isDigit_significant hds) (isDigit_significant hes) ?_
  rw [← digits_digitsValue hds, ← digits_digitsValue hes, h]

lemma significant_eq_nil_of_digitsValue_eq_zero {ds : List Char} (hds : ∀ d ∈ ds, d.isDigit)
    (h : digitsValue ds = 0) : significant ds = [] :=
  significant_eq_of_digitsValue_eq hds (List.forall_mem_nil _) h

/-! ## Signs -/

lemma sameSign_of_signedValue_eq {s s' ds ds' : List Char} (hds : ∀ d ∈ ds, d.isDigit)
    (h : signedValue s ds = signedValue s' ds') :
    digitsValue ds = digitsValue ds' ∧ SameSign s s' ds := by
  unfold signedValue at h
  by_cases hs : s = ['-'] <;> by_cases hs' : s' = ['-']
  · rw [if_pos hs, if_pos hs'] at h
    exact ⟨by omega, .inl (iff_of_true hs hs')⟩
  · rw [if_pos hs, if_neg hs'] at h
    exact ⟨by omega, .inr (significant_eq_nil_of_digitsValue_eq_zero hds (by omega))⟩
  · rw [if_neg hs, if_pos hs'] at h
    exact ⟨by omega, .inr (significant_eq_nil_of_digitsValue_eq_zero hds (by omega))⟩
  · rw [if_neg hs, if_neg hs'] at h
    exact ⟨by omega, .inl (iff_of_false hs hs')⟩

/-! ## Values -/

/-- Literals that spell one value spell it as another. -/
theorem respelled_of_hasValue {k : Token.Kind} {w w' : List Char} {v : Literal}
    (h : HasValue k w v) (h' : HasValue k w' v) : Respelled k w w' := by
  generalize hv : v = v' at h'
  cases h with
  | @integer s ds hs hds =>
    cases h' with
    | @integer s' ds' hs' hds' =>
      obtain ⟨hvalue, hsign⟩ := sameSign_of_signedValue_eq hds.2 (Literal.integer.inj hv)
      exact .integer hs hs' hds hds' (significant_eq_of_digitsValue_eq hds.2 hds'.2 hvalue) hsign
  | @decimal s ds fs hs hds hfs =>
    cases h' with
    | @decimal s' ds' fs' hs' hds' hfs' =>
      obtain ⟨hunscaled, hscale⟩ := Decimal.mk.inj (Literal.decimal.inj hv)
      have hlength : fs.length = fs'.length := Int.ofNat.inj hscale
      have hall := isDigits_append hds hfs
      obtain ⟨hvalue, hsign⟩ := sameSign_of_signedValue_eq hall.2 hunscaled
      -- The fraction is what is left of the number after division by a power of ten.
      have hlt := digitsValue_lt hfs.2
      have hlt' := digitsValue_lt hfs'.2
      rw [digitsValue_append, digitsValue_append, hlength] at hvalue
      rw [hlength] at hlt
      have hfraction : digitsValue fs = digitsValue fs' := by
        have hmod := congrArg (· % 10 ^ fs'.length) hvalue
        simpa only [Nat.add_mul_mod_self_left, Nat.mod_eq_of_lt hlt, Nat.mod_eq_of_lt hlt']
          using hmod
      have hwhole : digitsValue ds = digitsValue ds' := by
        rw [hfraction] at hvalue
        exact Nat.eq_of_mul_eq_mul_left (Nat.pow_pos (by decide)) (Nat.add_left_cancel hvalue)
      obtain rfl := eq_of_length_eq hfs.2 hfs'.2 hlength hfraction
      exact .decimal hs hs' hds hds' hfs
        (significant_eq_of_digitsValue_eq hds.2 hds'.2 hwhole) hsign
  | @character u c hu =>
    cases h' with
    | character hu' =>
      obtain rfl := Literal.character.inj hv
      exact .character hu hu'
  | @string us cs hus =>
    cases h' with
    | string hus' =>
      obtain rfl := String.ofList_injective (Literal.string.inj hv)
      exact .string hus hus'

/-! ## Tokens -/

/-- The tokens are of one kind, and their literals are the same or spell the same value. -/
structure Token.Alike (t u : Token) : Prop where
  kind_eq : t.kind = u.kind
  respelled : Respelled t.kind t.literal.toList u.literal.toList

section Tokens

variable {t u : Token} {v : Literal}

lemma Token.Alike.of_literal_eq (ht : t.WellSpelled) (hu : u.WellSpelled)
    (h : t.literal = u.literal) : t.Alike u where
  kind_eq := ht.kind_eq (by rw [h]; exact hu)
  respelled := by
    rw [h]
    exact .same

/-- A token that denotes a value of its kind spells that value. -/
lemma Denotes.hasValue (ht : t.WellSpelled) (h : Denotes t v) (hkind : v.kind.isLiteral) :
    t.kind = v.kind ∧ HasValue t.kind t.literal.toList v := by
  unfold Token.WellSpelled at ht
  generalize hcs : t.literal.toList = cs at ht
  cases h with
  | nil _ => exact absurd hkind (by decide)
  | true _ => exact absurd hkind (by decide)
  | false _ => exact absurd hkind (by decide)
  | integer hk hvalue =>
    rw [hk] at ht ⊢
    cases ht with
    | integer hs hds =>
      obtain rfl := Option.some.inj
        (hvalue.symm.trans (Numeral.ofToken?_of_isDigits hs hds hcs))
      exact ⟨rfl, .integer hs hds⟩
  | decimal hk hvalue =>
    rw [hk] at ht ⊢
    cases ht with
    | @decimal s ds fs hs hds hfs =>
      have hscale : Decimal.IsScale fs.length := by
        by_contra hscale
        rw [Decimal.ofToken?, hcs, Decimal.ofChars?_withoutPlus hs hds hfs, if_neg hscale] at hvalue
        exact absurd hvalue (by simp)
      obtain rfl := Option.some.inj
        (hvalue.symm.trans (Decimal.ofToken?_of_isDigits hs hds hfs hcs hscale))
      exact ⟨rfl, .decimal hs hds hfs⟩
  | character hk hvalue =>
    rw [hk] at ht ⊢
    cases ht with
    | character hu =>
      obtain ⟨c, hc⟩ := UnitValue.exists_of_quotedUnit hu
      have hone := UnitValues.nil.cons hc
      rw [List.append_nil] at hone
      have hdecode := Quoted.decode_of_unitValues hone hcs
      have hcharacters := String.ofList_injective (Option.some.inj (hvalue.symm.trans hdecode))
      obtain rfl := List.singleton_injective hcharacters
      exact ⟨rfl, .character hc⟩
  | string hk hvalue =>
    rw [hk] at ht ⊢
    cases ht with
    | string hus =>
      obtain ⟨cs, hcs'⟩ := UnitValues.exists_of_quotedUnits hus
      have hdecode := Quoted.decode_of_unitValues hcs' hcs
      obtain rfl := Option.some.inj (hvalue.symm.trans hdecode)
      exact ⟨rfl, .string hcs'⟩

/-- Tokens that denote the same value are alike. -/
theorem Token.Alike.of_denotes (ht : t.WellSpelled) (hu : u.WellSpelled) (h : Denotes t v)
    (h' : Denotes u v) : t.Alike u := by
  by_cases hkind : v.kind.isLiteral
  · obtain ⟨hk, hvalue⟩ := h.hasValue ht hkind
    obtain ⟨hk', hvalue'⟩ := h'.hasValue hu hkind
    have heq : t.kind = u.kind := hk.trans hk'.symm
    rw [← heq] at hvalue'
    exact ⟨heq, respelled_of_hasValue hvalue hvalue'⟩
  · refine .of_literal_eq ht hu ?_
    cases h with
    | nil ht =>
      cases h' with
      | nil hu => rw [ht, hu]
    | true ht =>
      cases h' with
      | true hu => rw [ht, hu]
    | false ht =>
      cases h' with
      | false hu => rw [ht, hu]
    | _ => exact absurd rfl hkind

end Tokens

end LetDef
