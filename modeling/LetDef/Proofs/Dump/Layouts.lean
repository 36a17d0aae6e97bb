import LetDef.Proofs.Dump.Notation

/-!
# What the layouts have in common

The debug layout and the object notation differ in their leaves, in whether records are named and in
whether what is tagged on has a line of its own.  A `Layout` is a way to write trees down for which
none of this matters: it says what the text of a tree consists of, and it comes with the proofs that
its leaves are revealed.  Both layouts are instances (`Layout.debug`, `Layout.ron`), and
`Layout.Tells` is about any of them, so each form of tree is treated once.

Decimal numbers are the one leaf that a layout may fail to tell apart, and `Layout.Same` says when.
Two trees are compared only if they were made by the same recipe: without its recipe a tree is not
determined by its text, since a name by itself and a truth value may have the same spelling.
-/

namespace LetDef

/-- The lines of labelled parts. -/
def partLines (write : Nat → Datum → List Char) (width depth : Nat)
    (parts : List (String × Datum)) : List Char :=
  parts.flatMap fun part => Datum.newLine width depth ++
    (part.1.toList ++ (": ".toList ++ (write depth part.2 ++ [','])))

/-- A way to write trees down. -/
structure Layout where
  /-- The text of a tree at a depth. -/
  write : Nat → Datum → List Char
  /-- By how many columns parts stand further in. -/
  width : Nat
  /-- Which decimal numbers may be written alike. -/
  Same : Decimal → Decimal → Prop
  /-- What stands in front of the parts of a record. -/
  opening : String → List Char
  /-- What stands behind them, on a line of its own. -/
  closing : List Char
  /-- The depth of what is tagged on. -/
  inward : Nat → Nat
  /-- What stands between a parenthesis and what is tagged on. -/
  before : Nat → List Char
  /-- What stands behind it, with the other parenthesis. -/
  after : Nat → List Char
  width_pos : 0 < width
  mayFollow_after : ∀ depth r, MayFollow (after depth ++ r)
  write_constant : ∀ depth name, write depth (.constant name) = name.toList
  write_absent : ∀ depth, write depth .absent = "None".toList
  write_present : ∀ depth inner, write depth (.present inner) =
    "Some".toList ++ '(' :: (before depth ++ (write (inward depth) inner ++ after depth))
  write_tagged : ∀ depth name inner, write depth (.tagged name inner) =
    name.toList ++ '(' :: (before depth ++ (write (inward depth) inner ++ after depth))
  write_record : ∀ depth name parts, write depth (.record name parts) =
    opening name ++ (partLines write width (depth + 1) parts ++
      (Datum.newLine width depth ++ closing))
  write_list : ∀ depth items, write depth (.list items) =
    bracketed width depth (items.map (write (depth + 1)))
  reveals_bool : ∀ depth b c, Reveals (write depth (.bool b)) (write depth (.bool c)) (b = c)
  reveals_number : ∀ depth m n,
    Reveals (write depth (.number m)) (write depth (.number n)) (m = n)
  reveals_integer : ∀ depth i j,
    Reveals (write depth (.integer i)) (write depth (.integer j)) (i = j)
  reveals_decimal : ∀ depth d e,
    Reveals (write depth (.decimal d)) (write depth (.decimal e)) (Same d e)
  reveals_character : ∀ depth c d,
    Reveals (write depth (.character c)) (write depth (.character d)) (c = d)
  reveals_text : ∀ depth s t, Reveals (write depth (.text s)) (write depth (.text t)) (s = t)

/-! ## The two layouts -/

namespace Datum

lemma reveals_truth (b c : Bool) :
    Reveals (if b then "true".toList else "false".toList)
      (if c then "true".toList else "false".toList) (b = c) := by
  have hdiffer : ∀ s t : List Char, "true".toList ++ s ≠ "false".toList ++ t := by
    intro s t h
    have hhead : 't' = 'f' := (List.cons.inj h).1
    exact absurd hhead (by decide)
  cases b <;> cases c
  · exact .refl _ rfl
  · exact .of_ne fun s t h => hdiffer t s h.symm
  · exact .of_ne hdiffer
  · exact .refl _ rfl

/-- The lines of labelled parts, one after the other. -/
lemma debugParts_eq (depth : Nat) (parts : List (String × Datum)) :
    debugParts depth parts = partLines debugAt debugWidth depth parts := by
  induction parts with
  | nil => rfl
  | cons part parts ih =>
    obtain ⟨label, inner⟩ := part
    rw [debugParts, ih, partLines, partLines, List.flatMap_cons]
    simp only [List.append_assoc, List.cons_append, List.nil_append]

lemma debugItems_eq (depth : Nat) (items : List Datum) :
    debugItems depth items = itemLines debugWidth depth (items.map (debugAt depth)) := by
  induction items with
  | nil => rfl
  | cons item items ih =>
    rw [debugItems, ih, itemLines, itemLines, List.map_cons, List.flatMap_cons]
    simp only [List.append_assoc, List.cons_append, List.nil_append]

lemma debugAt_list (depth : Nat) (items : List Datum) :
    debugAt depth (.list items) = bracketed debugWidth depth (items.map (debugAt (depth + 1))) := by
  cases items with
  | nil => rfl
  | cons item items => rw [debugAt, debugItems_eq]; rfl

/-- A decimal number as digits and a power of ten shows both. -/
lemma reveals_debugDecimal (d e : Decimal) : Reveals (debugDecimal d) (debugDecimal e) (d = e) := by
  have hmark : Numeral.isSignOrDigit 'e' = false := rfl
  have hquote : Numeral.isSignOrDigit '"' = false := rfl
  have hclose : "\")".toList = ['"', ')'] := by simp
  unfold debugDecimal
  rw [hclose]
  apply Reveals.append_left
  intro r r' _ _ heq
  simp only [List.append_assoc, List.cons_append, List.nil_append] at heq
  obtain ⟨hunscaled, hbehind⟩ := Numeral.ofInt_append_inj hmark heq
  obtain ⟨hscale, hrest⟩ := Numeral.ofInt_append_inj hquote hbehind
  refine ⟨?_, (List.cons.inj hrest).2⟩
  obtain ⟨unscaled, scale⟩ := d
  obtain ⟨unscaled', scale'⟩ := e
  obtain rfl : unscaled = unscaled' := hunscaled
  obtain rfl : scale = scale' := Int.neg_inj.1 hscale
  rfl

lemma ronParts_eq (depth : Nat) (parts : List (String × Datum)) :
    ronParts depth parts = partLines ronAt ronWidth depth parts := by
  induction parts with
  | nil => rfl
  | cons part parts ih =>
    obtain ⟨label, inner⟩ := part
    rw [ronParts, ih, partLines, partLines, List.flatMap_cons]
    simp only [List.append_assoc, List.cons_append, List.nil_append]

lemma ronItems_eq (depth : Nat) (items : List Datum) :
    ronItems depth items = items.map (ronAt depth) := by
  induction items with
  | nil => rfl
  | cons item items ih => rw [ronItems, ih, List.map_cons]

lemma ronList_eq (depth : Nat) (items : List (List Char)) :
    ronList depth items = bracketed ronWidth depth items := rfl

/-- The sign of an integer and its digits to a large base determine it. -/
lemma reveals_ronInteger (depth : Nat) (i j : Int) :
    Reveals (ronInteger depth i) (ronInteger depth j) (i = j) := by
  have hlines : LinesReveal ronWidth depth ((limbs i.natAbs).map Numeral.ofNat)
      ((limbs j.natAbs).map Numeral.ofNat) (limbs i.natAbs = limbs j.natAbs) := by
    intro r r' heq
    have hwidth : 0 < ronWidth := by decide
    obtain ⟨hequal, hrest⟩ := LinesReveal.of_forall hwidth Numeral.reveals_ofNat _ _ heq
    exact ⟨List.forall₂_eq_eq_eq ▸ hequal, hrest⟩
  intro r r' hr hr' heq
  simp only [ronInteger, List.append_assoc, List.cons_append, List.cons.injEq, true_and] at heq
  obtain ⟨hsign, hbehind⟩ := Numeral.ofInt_append_inj rfl heq
  have hdigits := List.append_cancel_left hbehind
  obtain ⟨hlimbs, hrest⟩ := reveals_bracketed hlines (mayFollow_paren _) (mayFollow_paren _) hdigits
  have habs : i.natAbs = j.natAbs := limbs_injective hlimbs
  refine ⟨?_, List.append_cancel_left hrest⟩
  rw [← Int.sign_mul_natAbs i, ← Int.sign_mul_natAbs j, hsign, habs]

/-- The text is revealed wherever its own quotes need a backslash. -/
lemma reveals_escape {quotes : List Char} (hquotes : ∀ q ∈ quotes, q = '"' ∨ q = '\'')
    (hmem : '"' ∈ quotes) (cs ds : List Char) :
    Reveals (Text.quoted '"' (Text.escape quotes cs)) (Text.quoted '"' (Text.escape quotes ds))
      (cs = ds) :=
  (Text.legible_escapeChar hquotes hmem).reveals_quoted cs ds

end Datum

namespace Layout

/-- The debug layout. -/
def debug : Layout where
  write := Datum.debugAt
  width := Datum.debugWidth
  Same := Eq
  opening name := name.toList ++ " \x7b".toList
  closing := ['\x7d']
  inward depth := depth + 1
  before depth := Datum.newLine Datum.debugWidth (depth + 1)
  after depth := ',' :: (Datum.newLine Datum.debugWidth depth ++ [')'])
  width_pos := by decide
  mayFollow_after _ _ := mayFollow_cons (.inl rfl) _
  write_constant _ _ := Datum.debugAt.eq_1 ..
  write_absent _ := Datum.debugAt.eq_8 ..
  write_present depth inner := by rw [Datum.debugAt, Datum.debugTagged]
  write_tagged depth name inner := by rw [Datum.debugAt, Datum.debugTagged]
  write_record depth name parts := by
    rw [Datum.debugAt, Datum.debugParts_eq, List.append_assoc]
  write_list := Datum.debugAt_list
  reveals_bool depth b c := by
    rw [Datum.debugAt, Datum.debugAt]
    exact Datum.reveals_truth b c
  reveals_number depth m n := by
    rw [Datum.debugAt, Datum.debugAt]
    exact Numeral.reveals_ofNat m n
  reveals_integer depth i j := by
    rw [Datum.debugAt, Datum.debugAt]
    exact Numeral.reveals_ofInt i j
  reveals_decimal depth d e := by
    rw [Datum.debugAt, Datum.debugAt]
    exact Datum.reveals_debugDecimal d e
  reveals_character depth c d := by
    have hlegible : Legible '\'' (Text.escapeChar ['\'']) :=
      Text.legible_escapeChar (by simp) (List.mem_singleton_self _)
    have hreveal := hlegible.reveals_quoted [c] [d]
    rw [List.flatMap_singleton, List.flatMap_singleton] at hreveal
    rw [Datum.debugAt, Datum.debugAt]
    exact hreveal.imp fun h => (List.cons.inj h).1
  reveals_text depth s t := by
    rw [Datum.debugAt, Datum.debugAt]
    exact (Datum.reveals_escape (by simp) (List.mem_singleton_self _) _ _).imp String.toList_inj.1

/-- The object notation. -/
def ron : Layout where
  write := Datum.ronAt
  width := Datum.ronWidth
  Same d e := d.value = e.value
  opening _ := ['(']
  closing := [')']
  inward depth := depth
  before _ := []
  after _ := [')']
  width_pos := by decide
  mayFollow_after _ := mayFollow_paren
  write_constant _ _ := by rw [Datum.ronAt]
  write_absent _ := by rw [Datum.ronAt]
  write_present depth inner := by rw [Datum.ronAt]; rfl
  write_tagged depth name inner := by rw [Datum.ronAt]; rfl
  write_record depth name parts := by rw [Datum.ronAt, Datum.ronParts_eq]; rfl
  write_list depth items := by rw [Datum.ronAt, Datum.ronItems_eq, Datum.ronList_eq]
  reveals_bool depth b c := by
    rw [Datum.ronAt, Datum.ronAt]
    exact Datum.reveals_truth b c
  reveals_number depth m n := by
    rw [Datum.ronAt, Datum.ronAt]
    exact Numeral.reveals_ofNat m n
  reveals_integer depth i j := by
    rw [Datum.ronAt, Datum.ronAt]
    exact Datum.reveals_ronInteger depth i j
  reveals_decimal depth d e := by
    rw [Datum.ronAt, Datum.ronAt]
    refine (Datum.reveals_escape (by simp) List.mem_cons_self _ _).imp fun h => ?_
    rw [← d.value_reading_chars, ← e.value_reading_chars, h]
  reveals_character depth c d := by
    have hreveal := Text.legible_slashed.reveals_quoted [c] [d]
    rw [List.flatMap_singleton, List.flatMap_singleton] at hreveal
    rw [Datum.ronAt, Datum.ronAt]
    exact hreveal.imp fun h => (List.cons.inj h).1
  reveals_text depth s t := by
    rw [Datum.ronAt, Datum.ronAt]
    exact (Datum.reveals_escape (by simp) List.mem_cons_self _ _).imp String.toList_inj.1

end Layout

end LetDef
