import LetDef.Proofs.Grammar.Completeness
import LetDef.Proofs.Printing.WellFormed

/-!
# Values are read back

The word for a value is spelled as a token of its kind is, and such a token denotes the value
(`denotes_of_word`).  The converse part is that a token denotes well-formed values only
(`Denotes.wellFormed`).
-/

namespace LetDef

/-! ## Quoted text -/

namespace Quoted

variable {delimiter : Char}

/-- The delimiters are their own escape letters. -/
lemma escapeValue_delimiter (h : delimiter = '\'' ∨ delimiter = '"') :
    escapeValue? delimiter = some delimiter := by
  rcases h with rfl | rfl <;> rfl

/-- An escape is decoded to what its letter stands for. -/
lemma decodeUnits_letter {letter value : Char} (h : escapeValue? letter = some value)
    (cs : List Char) :
    decodeUnits ('\\' :: letter :: cs) = (decodeUnits cs).map (value :: ·) := by
  rw [decodeUnits.eq_def]
  cases hcs : decodeUnits cs <;> simp [h, hcs]

lemma decodeUnits_raw {c : Char} (h : c ≠ '\\') (cs : List Char) :
    decodeUnits (c :: cs) = (decodeUnits cs).map (c :: ·) := by
  rw [decodeUnits.eq_def]
  cases hcs : decodeUnits cs <;> simp [h, hcs]

/-- A character that was written, escaped or not, is decoded to itself. -/
lemma decodeUnits_escape_append (h : delimiter = '\'' ∨ delimiter = '"') (c : Char)
    (cs : List Char) :
    decodeUnits (escape delimiter c ++ cs) = (decodeUnits cs).map (c :: ·) := by
  unfold escape
  by_cases hc : c = delimiter ∨ c = '\\'
  · have hvalue : escapeValue? c = some c := by
      rcases hc with rfl | rfl
      · exact escapeValue_delimiter h
      · rfl
    rw [if_pos hc]
    exact decodeUnits_letter hvalue cs
  rw [if_neg hc]
  by_cases hn : c = '\n'
  · rw [if_pos hn, hn]
    exact decodeUnits_letter rfl cs
  rw [if_neg hn]
  by_cases hr : c = '\r'
  · rw [if_pos hr, hr]
    exact decodeUnits_letter rfl cs
  rw [if_neg hr]
  exact decodeUnits_raw (fun hb => hc (.inr hb)) cs

lemma decodeUnits_escapes (h : delimiter = '\'' ∨ delimiter = '"') (cs : List Char) :
    decodeUnits (cs.flatMap (escape delimiter)) = some cs := by
  induction cs with
  | nil => rfl
  | cons c cs ih => rw [List.flatMap_cons, decodeUnits_escape_append h, ih, Option.map_some]

/-- A text that is put into quotes is got back, for both sorts of quotes. -/
theorem decode_encode (h : delimiter = '\'' ∨ delimiter = '"') (cs : List Char) :
    decode delimiter (String.ofList (encode delimiter cs)) = some (String.ofList cs) := by
  have hbetween :
      between? delimiter (encode delimiter cs) = some (cs.flatMap (escape delimiter)) := by
    simp [between?, encode]
  rw [decode, String.toList_ofList, hbetween]
  simp [decodeUnits_escapes h]

/-- What a character is written as is one unit of a quoted text. -/
lemma quotedUnit_escape (h : delimiter = '\'' ∨ delimiter = '"') (c : Char) :
    QuotedUnit delimiter (escape delimiter c) := by
  unfold escape
  split
  · next hc =>
    apply QuotedUnit.escape
    rcases h with rfl | rfl <;> rcases hc with rfl | rfl <;> decide
  · next hc =>
    rw [not_or] at hc
    split
    · exact .escape (by decide)
    split
    · exact .escape (by decide)
    · next hn hr => exact .raw hc.1 hc.2 hn hr

lemma quotedUnits_escapes (h : delimiter = '\'' ∨ delimiter = '"') (cs : List Char) :
    QuotedUnits delimiter (cs.flatMap (escape delimiter)) := by
  induction cs with
  | nil => exact .nil
  | cons c cs ih => exact .cons (quotedUnit_escape h c) ih

end Quoted

/-! ## Numbers -/

lemma isDigits_append {ds fs : List Char} (hds : IsDigits ds) (hfs : IsDigits fs) :
    IsDigits (ds ++ fs) :=
  ⟨List.append_ne_nil_of_left_ne_nil hds.1 fs, List.forall_mem_append.2 ⟨hds.2, hfs.2⟩⟩

namespace Numeral

lemma isDigits_ofNat (n : Nat) : IsDigits (ofNat n) :=
  ⟨Nat.toDigits_ne_nil, fun _ => isDigit_of_mem_ofNat⟩

lemma withoutPlus_of_isDigit {c : Char} {cs : List Char} (hc : c.isDigit) :
    withoutPlus (c :: cs) = c :: cs := by
  refine if_neg ?_
  rintro rfl
  exact absurd hc (by decide)

/-- What is left of a sign without plus signs. -/
def minusPart (s : List Char) : List Char :=
  if s = ['-'] then ['-'] else []

/-- Without a plus sign, what a number has in front of its digits is a minus sign or nothing. -/
lemma withoutPlus_append {s ds : List Char} (hs : IsSignPart s) (hds : IsDigits ds)
    (tail : List Char) :
    withoutPlus (s ++ (ds ++ tail)) = minusPart s ++ (ds ++ tail) := by
  rcases hs with rfl | rfl | rfl
  · obtain ⟨c, cs, rfl⟩ := List.exists_cons_of_ne_nil hds.1
    exact withoutPlus_of_isDigit (hds.2 c List.mem_cons_self)
  · rfl
  · rfl

/-- Digits, also with zeros in front, are read as the number that they write. -/
lemma natural?_of_isDigits {ds : List Char} (h : IsDigits ds) :
    natural? ds = some (Nat.ofDigitChars 10 ds 0) := by
  have hbar : ∀ c ∈ ds, c ≠ '_' := by
    rintro c hc rfl
    exact absurd (h.2 '_' hc) (by decide)
  have hhead : ds.head? ≠ some '_' := fun hhead => hbar _ (List.mem_of_head? hhead) rfl
  have hfilter : ds.filter (· ≠ '_') = ds :=
    List.filter_eq_self.2 fun c hc => decide_eq_true (hbar c hc)
  have hdigits : ds.all Char.isDigit := List.all_eq_true.2 h.2
  rw [natural?, if_neg (by simp [h.1, hhead])]
  simp only [hfilter, hdigits, if_true]

/-- Digits are read as the number that they write. -/
lemma integer?_of_isDigits {ds : List Char} (h : IsDigits ds) :
    integer? ds = some (Nat.ofDigitChars 10 ds 0 : Int) := by
  obtain ⟨c, cs, rfl⟩ := List.exists_cons_of_ne_nil h.1
  have hdigit : c.isDigit := h.2 c List.mem_cons_self
  have hminus : c ≠ '-' := by
    rintro rfl
    exact absurd hdigit (by decide)
  have hplus : c ≠ '+' := by
    rintro rfl
    exact absurd hdigit (by decide)
  rw [integer?, if_neg hminus, if_neg hplus, natural?_of_isDigits h, Option.map_some]
  rfl

lemma ofInt_eq (i : Int) :
    ofInt i = (if i < 0 then ['-'] else []) ++ ofNat i.natAbs := by
  unfold ofInt
  split <;> rfl

/-- An integer is written as an integer word. -/
lemma spelling_ofInt (i : Int) : Spelling .integer (ofInt i) := by
  rw [ofInt_eq]
  refine .integer ?_ (isDigits_ofNat i.natAbs)
  split
  · exact .inr (.inr rfl)
  · exact .inl rfl

/-- An integer that was written is read back. -/
theorem ofToken?_ofInt (i : Int) : ofToken? (String.ofList (ofInt i)) = some i := by
  have hplus : withoutPlus (ofInt i) = ofInt i := by
    unfold ofInt
    split
    · rfl
    · obtain ⟨c, cs, hcs⟩ := List.exists_cons_of_ne_nil (isDigits_ofNat i.natAbs).1
      rw [hcs]
      exact withoutPlus_of_isDigit (isDigit_of_mem_ofNat (hcs ▸ List.mem_cons_self))
  rw [ofToken?, String.toList_ofList, hplus, integer?_ofInt]

end Numeral

namespace Decimal

/-- Digits with a point before the last of them, and zeros where there are too few. -/
lemma exists_pointed {ds : List Char} (h : IsDigits ds) {places : Nat} (hplaces : places ≠ 0) :
    ∃ ws fs, pointed ds places = ws ++ '.' :: fs ∧ IsDigits ws ∧ IsDigits fs ∧
      fs.length = places ∧ ws ++ fs = List.replicate (places + 1 - ds.length) '0' ++ ds := by
  have hpadded : ∀ c ∈ List.replicate (places + 1 - ds.length) '0' ++ ds, c.isDigit := by
    intro c hc
    rcases List.mem_append.1 hc with hzero | hdigit
    · rw [List.eq_of_mem_replicate hzero]
      rfl
    · exact h.2 c hdigit
  have hlength : places < (List.replicate (places + 1 - ds.length) '0' ++ ds).length := by
    rw [List.length_append, List.length_replicate]
    omega
  unfold pointed
  generalize List.replicate (places + 1 - ds.length) '0' ++ ds = padded at hpadded hlength
  refine ⟨padded.take (padded.length - places), padded.drop (padded.length - places), rfl,
    ⟨?_, fun c hc => hpadded c (List.mem_of_mem_take hc)⟩,
    ⟨?_, fun c hc => hpadded c (List.mem_of_mem_drop hc)⟩, ?_, List.take_append_drop _ _⟩
  · rw [← List.length_pos_iff, List.length_take]
    omega
  · rw [← List.length_pos_iff, List.length_drop]
    omega
  · rw [List.length_drop]
    omega

/-- Zeros in front of the digits of a number do not change it. -/
lemma ofDigitChars_zeros (k n : Nat) :
    Nat.ofDigitChars 10 (List.replicate k '0' ++ Numeral.ofNat n) 0 = n := by
  rw [Nat.ofDigitChars_append, Nat.ofDigitChars_replicate_zero, Nat.mul_zero]
  exact Nat.ofDigitChars_ten_toDigits

/-- Decimals with a place behind the point have digits there. -/
lemma places_ne_zero {d : Decimal} (h : 1 ≤ d.scale) : d.scale.toNat ≠ 0 := by
  omega

/-- A decimal is written as a decimal word. -/
lemma spelling_plain {d : Decimal} (h : 1 ≤ d.scale) : Spelling .decimal d.plain := by
  obtain ⟨ws, fs, hpointed, hws, hfs, -⟩ :=
    exists_pointed (Numeral.isDigits_ofNat d.unscaled.natAbs) (places_ne_zero h)
  rw [plain, hpointed, ← List.append_assoc]
  refine .decimal ?_ hws hfs
  split
  · exact .inr (.inr rfl)
  · exact .inl rfl

lemma not_isExponentMark_of_isDigit {c : Char} (h : c.isDigit) : (!isExponentMark c) = true := by
  rw [Bool.not_eq_true', ← Bool.not_eq_true]
  intro hmark
  have hcases : c = 'e' ∨ c = 'E' := by simpa [isExponentMark] using hmark
  rcases hcases with rfl | rfl <;> exact absurd h (by decide)

lemma isDigit_ne {c d : Char} (h : c.isDigit) (hd : d.isDigit = false) : c ≠ d := by
  rintro rfl
  rw [h] at hd
  exact Bool.noConfusion hd

/-- A number in plain notation has no exponent, and its fraction has the digits that the scale
counts. -/
lemma ofChars?_point {ws fs : List Char} (hws : ∀ c ∈ ws, c = '-' ∨ c.isDigit)
    (hfs : IsDigits fs) :
    ofChars? (ws ++ '.' :: fs) = if IsScale fs.length then
      (Numeral.integer? (ws ++ fs)).map (⟨·, fs.length⟩) else none := by
  have hmark : ∀ c ∈ ws ++ '.' :: fs, (!isExponentMark c) = true := by
    intro c hc
    rcases List.mem_append.1 hc with hw | hc
    · rcases hws c hw with rfl | hdigit
      · rfl
      · exact not_isExponentMark_of_isDigit hdigit
    · rcases List.mem_cons.1 hc with rfl | hf
      · rfl
      · exact not_isExponentMark_of_isDigit (hfs.2 c hf)
  have hpoint : ∀ c ∈ ws, decide (c ≠ '.') = true := by
    intro c hc
    apply decide_eq_true
    rcases hws c hc with rfl | hdigit
    · decide
    · exact isDigit_ne hdigit rfl
  have hwhole : (ws ++ '.' :: fs).takeWhile (· ≠ '.') = ws := by
    rw [List.takeWhile_append_of_pos hpoint, List.takeWhile_cons_of_neg (by decide),
      List.append_nil]
  have hfraction : ((ws ++ '.' :: fs).dropWhile (· ≠ '.')).drop 1 = fs := by
    rw [List.dropWhile_append_of_pos hpoint, List.dropWhile_cons_of_neg (by decide)]
    rfl
  have hcount : fs.countP (· ≠ '_') = fs.length :=
    List.countP_eq_length.2 fun c hc => decide_eq_true (isDigit_ne (hfs.2 c hc) rfl)
  unfold ofChars?
  simp only [List.takeWhile_eq_self_iff.2 hmark, List.dropWhile_eq_nil_iff.2 hmark]
  unfold scaled?
  simp only [hwhole, hfraction, hcount, Int.sub_zero]

/-- What is written with a point is read as its digits without the point and the number of places
behind it. -/
lemma ofChars?_withoutPlus {s ds fs : List Char} (hs : IsSignPart s) (hds : IsDigits ds)
    (hfs : IsDigits fs) :
    ofChars? (Numeral.withoutPlus (s ++ ds ++ '.' :: fs)) = if IsScale fs.length then
      (Numeral.integer? (Numeral.minusPart s ++ ds ++ fs)).map (⟨·, fs.length⟩) else none := by
  have hwhole : ∀ c ∈ Numeral.minusPart s ++ ds, c = '-' ∨ c.isDigit := by
    intro c hc
    rcases List.mem_append.1 hc with hminus | hdigit
    · unfold Numeral.minusPart at hminus
      split at hminus
      · exact .inl (List.mem_singleton.1 hminus)
      · exact absurd hminus List.not_mem_nil
    · exact .inr (hds.2 c hdigit)
  rw [List.append_assoc, Numeral.withoutPlus_append hs hds, ← List.append_assoc,
    ofChars?_point hwhole hfs]

/-- A decimal that was written is read back, digits and scale. -/
theorem ofToken?_plain {d : Decimal} (h : 1 ≤ d.scale) (hscale : IsScale d.scale) :
    ofToken? (String.ofList d.plain) = some d := by
  obtain ⟨ws, fs, hpointed, hws, hfs, hlength, hdigits⟩ :=
    exists_pointed (Numeral.isDigits_ofNat d.unscaled.natAbs) (places_ne_zero h)
  have hcount : (fs.length : Int) = d.scale := by omega
  have hnatural : Nat.ofDigitChars 10 (ws ++ fs) 0 = d.unscaled.natAbs := by
    rw [hdigits]
    exact ofDigitChars_zeros _ _
  have hall : IsDigits (ws ++ fs) := isDigits_append hws hfs
  have hwhole : ∀ c ∈ ws, c = '-' ∨ c.isDigit := fun c hc => .inr (hws.2 c hc)
  rw [← hcount] at hscale
  rw [ofToken?, String.toList_ofList, plain, hpointed]
  by_cases hneg : d.unscaled < 0
  · have hvalue : Numeral.integer? ('-' :: ws ++ fs) = some d.unscaled := by
      rw [List.cons_append, Numeral.integer?, if_pos rfl, Numeral.natural?_of_isDigits hall,
        hnatural, Option.map_some]
      congr 1
      omega
    rw [if_pos hneg]
    show ofChars? ('-' :: ws ++ '.' :: fs) = some d
    rw [ofChars?_point (List.forall_mem_cons.2 ⟨.inl rfl, hwhole⟩) hfs, if_pos hscale, hvalue,
      Option.map_some, hcount]
  · have hvalue : Numeral.integer? (ws ++ fs) = some d.unscaled := by
      rw [Numeral.integer?_of_isDigits hall, hnatural]
      congr 1
      omega
    have hplus : Numeral.withoutPlus (ws ++ '.' :: fs) = ws ++ '.' :: fs := by
      obtain ⟨c, cs, rfl⟩ := List.exists_cons_of_ne_nil hws.1
      exact Numeral.withoutPlus_of_isDigit (hws.2 c List.mem_cons_self)
    rw [if_neg hneg, List.nil_append, hplus, ofChars?_point hwhole hfs, if_pos hscale, hvalue,
      Option.map_some, hcount]

/-- The decimals that tokens stand for have digits after the point. -/
lemma scale_of_ofToken? {literal : String} {d : Decimal}
    (hspelling : Spelling .decimal literal.toList) (h : ofToken? literal = some d) :
    1 ≤ d.scale ∧ IsScale d.scale := by
  unfold ofToken? at h
  generalize literal.toList = cs at hspelling h
  cases hspelling with
  | @decimal s ds fs hs hds hfs =>
    rw [ofChars?_withoutPlus hs hds hfs] at h
    by_cases hscale : IsScale fs.length
    · rw [if_pos hscale] at h
      obtain ⟨i, -, rfl⟩ := Option.map_eq_some_iff.1 h
      have hpos := List.length_pos_iff.2 hfs.1
      refine ⟨?_, hscale⟩
      show (1 : Int) ≤ fs.length
      omega
    · rw [if_neg hscale] at h
      exact absurd h (by simp)

end Decimal

/-! ## Values -/

/-- The kind of the tokens that stand for the value. -/
def Literal.kind : Literal → Token.Kind
  | nil | bool _ => .identifier
  | integer _ => .integer
  | decimal _ => .decimal
  | character _ => .character
  | string _ => .string

/-- Every value is written as a word of its kind. -/
lemma Literal.spelling_word {v : Literal} (h : v.WellFormed) :
    Spelling v.kind v.word.toList := by
  cases v with
  | nil => exact spelling_of_all 'N' ['I', 'L'] rfl rfl
  | bool b =>
    cases b with
    | true => exact spelling_of_all 'T' ['R', 'U', 'E'] rfl rfl
    | false => exact spelling_of_all 'F' ['A', 'L', 'S', 'E'] rfl rfl
  | integer i =>
    rw [word, String.toList_ofList]
    exact Numeral.spelling_ofInt i
  | decimal d =>
    rw [word, String.toList_ofList]
    exact Decimal.spelling_plain h.1
  | character c =>
    rw [word, String.toList_ofList, Quoted.encode, List.flatMap_singleton]
    exact .character (Quoted.quotedUnit_escape (.inl rfl) c)
  | string s =>
    rw [word, String.toList_ofList]
    exact .string (Quoted.quotedUnits_escapes (.inr rfl) s.toList)

/-- The token for a value denotes this value. -/
theorem denotes_of_word {t : Token} {v : Literal} (ht : t.WellSpelled) (h : v.WellFormed)
    (hword : t.literal = v.word) : Denotes t v := by
  have hkind : t.kind = v.kind := ht.kind_eq (by rw [hword]; exact v.spelling_word h)
  cases v with
  | nil => exact .nil hword
  | bool b =>
    cases b with
    | true => exact .true hword
    | false => exact .false hword
  | integer i => exact .integer hkind (by rw [hword]; exact Numeral.ofToken?_ofInt i)
  | decimal d => exact .decimal hkind (by rw [hword]; exact Decimal.ofToken?_plain h.1 h.2)
  | character c =>
    exact .character hkind (by rw [hword]; exact Quoted.decode_encode (.inl rfl) [c])
  | string s =>
    have hdecode := Quoted.decode_encode (.inr rfl) s.toList
    rw [String.ofList_toList] at hdecode
    exact .string hkind (by rw [hword]; exact hdecode)

/-- What a token denotes can be written. -/
theorem Denotes.wellFormed {t : Token} {v : Literal} (h : Denotes t v) (ht : t.WellSpelled) :
    v.WellFormed := by
  cases h with
  | decimal hkind hvalue =>
    unfold Token.WellSpelled at ht
    rw [hkind] at ht
    exact Decimal.scale_of_ofToken? ht hvalue
  | _ => trivial

end LetDef
