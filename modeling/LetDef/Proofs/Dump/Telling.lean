import LetDef.Proofs.Dump.Layouts

/-!
# Trees that tell

A pair of trees tells a relation between what they stand for (`Layout.Tells`) if the relation holds
whenever the two are written alike.  Each way to build trees carries that from the parts to the
whole, in any layout: records and lists part by part, and what is tagged on by way of the name.
Names also tell different forms apart (`tells_of_named_ne`), since a name consists of letters and
nothing that follows it does.
-/

namespace LetDef

/-- At every depth, the texts of the two trees reveal that `P` holds. -/
def Layout.Tells (L : Layout) (x y : Datum) (P : Prop) : Prop :=
  ∀ depth, Reveals (L.write depth x) (L.write depth y) P

/-- The lines of the parts do. -/
def Layout.PartsTell (L : Layout) (ps qs : List (String × Datum)) (P : Prop) : Prop :=
  ∀ ⦃depth : Nat⦄ ⦃r r' : List Char⦄,
    partLines L.write L.width depth ps ++ r = partLines L.write L.width depth qs ++ r' → P ∧ r = r'

/-- The lines of the items do. -/
def Layout.ItemsTell (L : Layout) (xs ys : List Datum) (P : Prop) : Prop :=
  ∀ depth, LinesReveal L.width depth (xs.map (L.write (depth + 1)))
    (ys.map (L.write (depth + 1))) P

/-- The text of the tree is a name, with something in parentheses behind it or nothing. -/
def Layout.Named (L : Layout) (x : Datum) (name : String) : Prop :=
  ∀ depth, ∃ s, L.write depth x = name.toList ++ s ∧ (s = [] ∨ ∃ t, s = '(' :: t)

/-- A name of letters. -/
def Lettered (name : String) : Prop := ∀ c ∈ name.toList, c.isAlpha

lemma lettered_None : Lettered "None" := by simp [Lettered]

lemma lettered_Some : Lettered "Some" := by simp [Lettered]

namespace Layout

variable {L : Layout} {x y : Datum} {P Q : Prop}

/-- What tells more apart tells less apart. -/
lemma Tells.imp (h : L.Tells x y P) (hPQ : P → Q) : L.Tells x y Q :=
  fun depth => (h depth).imp hPQ

/-! ## Names -/

/-- A constant is written as its name. -/
lemma named_constant (name : String) : L.Named (.constant name) name := by
  intro depth
  exact ⟨[], by rw [L.write_constant, List.append_nil], .inl rfl⟩

lemma named_absent : L.Named .absent "None" := by
  intro depth
  exact ⟨[], by rw [L.write_absent, List.append_nil], .inl rfl⟩

/-- What may be missing and is there is written behind `Some`. -/
lemma named_present (x : Datum) : L.Named (.present x) "Some" :=
  fun depth => ⟨_, L.write_present depth x, .inr ⟨_, rfl⟩⟩

lemma named_tagged (name : String) (x : Datum) : L.Named (.tagged name x) name :=
  fun depth => ⟨_, L.write_tagged depth name x, .inr ⟨_, rfl⟩⟩

/-- Trees with different names tell anything. -/
lemma tells_of_named_ne {name name' : String} (hx : L.Named x name) (hy : L.Named y name')
    (hname : Lettered name) (hname' : Lettered name') (hne : name ≠ name') : L.Tells x y P := by
  have hbehind : ∀ {s r : List Char}, (s = [] ∨ ∃ t, s = '(' :: t) → MayFollow r →
      ∀ c ∈ (s ++ r).head?, c.isAlpha = false := by
    intro s r hs hr c hc
    rcases hs with rfl | ⟨t, rfl⟩
    · rcases hr c hc with rfl | rfl | rfl <;> rfl
    · obtain rfl : '(' = c := Option.some.inj hc
      rfl
  intro depth r r' hr hr' heq
  obtain ⟨s, hwrite, hs⟩ := hx depth
  obtain ⟨s', hwrite', hs'⟩ := hy depth
  rw [hwrite, hwrite', List.append_assoc, List.append_assoc] at heq
  have hequal := (append_inj_of_class hname hname' (hbehind hs hr) (hbehind hs' hr') heq).1
  exact absurd (String.toList_inj.1 hequal) hne

/-! ## What is tagged on, and what may be missing -/

/-- Between the parentheses the two trees are all that can differ. -/
lemma Tells.inParens (h : L.Tells x y P) (name : List Char) (depth : Nat) :
    Reveals
      (name ++ '(' :: (L.before depth ++ (L.write (L.inward depth) x ++ L.after depth)))
      (name ++ '(' :: (L.before depth ++ (L.write (L.inward depth) y ++ L.after depth))) P :=
  (((h _).append_right (L.mayFollow_after depth)).append_left _).cons '(' |>.append_left name

/-- Trees that are tagged alike are told apart by what is tagged. -/
lemma Tells.tagged (h : L.Tells x y P) (name : String) :
    L.Tells (.tagged name x) (.tagged name y) P := by
  intro depth
  rw [L.write_tagged, L.write_tagged]
  exact h.inParens _ depth

lemma Tells.present (h : L.Tells x y P) : L.Tells (.present x) (.present y) P := by
  intro depth
  rw [L.write_present, L.write_present]
  exact h.inParens _ depth

/-- What is missing twice is written twice in the same way. -/
lemma tells_absent : L.Tells .absent .absent True :=
  fun _ => .refl _ trivial

/-- What is missing is never written like what is there. -/
lemma tells_absent_present (x : Datum) : L.Tells .absent (.present x) P :=
  tells_of_named_ne named_absent (named_present x) lettered_None lettered_Some (by decide)

lemma tells_present_absent (x : Datum) : L.Tells (.present x) .absent P :=
  tells_of_named_ne (named_present x) named_absent lettered_Some lettered_None (by decide)

/-! ## Records and lists -/

/-- Parts with the same label are told apart by their trees. -/
lemma Tells.part (h : L.Tells x y P) (label : String) :
    L.PartsTell [(label, x)] [(label, y)] P := by
  intro depth r r' heq
  simp only [partLines, List.flatMap_cons, List.flatMap_nil, List.append_assoc,
    List.append_cancel_left_eq] at heq
  obtain ⟨hP, hrest⟩ := h depth (mayFollow_comma _) (mayFollow_comma _) heq
  exact ⟨hP, List.append_cancel_left hrest⟩

/-- Parts that are told apart stay so when parts are added that are told apart as well. -/
lemma PartsTell.append {ps qs ps' qs' : List (String × Datum)} (h : L.PartsTell ps qs P)
    (h' : L.PartsTell ps' qs' Q) : L.PartsTell (ps ++ ps') (qs ++ qs') (P ∧ Q) := by
  intro depth r r' heq
  simp only [partLines, List.flatMap_append, List.append_assoc] at heq
  obtain ⟨hP, hrest⟩ := h heq
  obtain ⟨hQ, hrest⟩ := h' hrest
  exact ⟨⟨hP, hQ⟩, hrest⟩

/-- Records of one name are told apart by their parts. -/
lemma PartsTell.record {ps qs : List (String × Datum)} (h : L.PartsTell ps qs P) (name : String) :
    L.Tells (.record name ps) (.record name qs) P := by
  intro depth r r' _ _ heq
  simp only [L.write_record, List.append_assoc, List.append_cancel_left_eq] at heq
  obtain ⟨hP, hrest⟩ := h heq
  exact ⟨hP, List.append_cancel_left (List.append_cancel_left hrest)⟩

/-- Lists are told apart by their items. -/
lemma ItemsTell.list {xs ys : List Datum} (h : L.ItemsTell xs ys P) :
    L.Tells (.list xs) (.list ys) P := by
  intro depth
  rw [L.write_list, L.write_list]
  exact reveals_bracketed (h depth)

lemma ItemsTell.imp {xs ys : List Datum} (h : L.ItemsTell xs ys P) (hPQ : P → Q) :
    L.ItemsTell xs ys Q := by
  intro depth r r' heq
  obtain ⟨hP, hrest⟩ := h depth heq
  exact ⟨hPQ hP, hrest⟩

lemma itemsTell_nil : L.ItemsTell [] [] True :=
  fun _ => .nil trivial

/-- An empty list is never written like one with items. -/
lemma itemsTell_nil_cons (x : Datum) (xs : List Datum) : L.ItemsTell [] (x :: xs) P :=
  fun _ => .nil_cons L.width_pos _ _

lemma itemsTell_cons_nil (x : Datum) (xs : List Datum) : L.ItemsTell (x :: xs) [] P :=
  fun _ => (LinesReveal.nil_cons L.width_pos _ _).symm

/-- Lists are told apart by their first items and by the rest. -/
lemma Tells.cons {xs ys : List Datum} (h : L.Tells x y P) (hs : L.ItemsTell xs ys Q) :
    L.ItemsTell (x :: xs) (y :: ys) (P ∧ Q) :=
  fun depth => .cons (h (depth + 1)) (hs depth)

/-- Items that are made by one recipe. -/
lemma itemsTell_map {α : Type} {f : α → Datum} {R : α → α → Prop}
    (h : ∀ a b, L.Tells (f a) (f b) (R a b)) (as bs : List α) :
    L.ItemsTell (as.map f) (bs.map f) (List.Forall₂ R as bs) := by
  intro depth
  rw [List.map_map, List.map_map]
  exact LinesReveal.of_forall L.width_pos (fun a b => h a b (depth + 1)) as bs

/-- A part that may be missing, made by one recipe. -/
lemma tells_ofOption {α : Type} {f : α → Datum} {R : α → α → Prop}
    (h : ∀ a b, L.Tells (f a) (f b) (R a b)) (o o' : Option α) :
    L.Tells (.ofOption (o.map f)) (.ofOption (o'.map f)) (Option.Rel R o o') := by
  cases o with
  | none =>
    cases o' with
    | none => exact tells_absent.imp fun _ => .none
    | some b => exact tells_absent_present _
  | some a =>
    cases o' with
    | none => exact tells_present_absent _
    | some b => exact (h a b).present.imp .some

/-! ## Leaves -/

lemma tells_bool (b c : Bool) : L.Tells (.bool b) (.bool c) (b = c) :=
  fun depth => L.reveals_bool depth b c

lemma tells_integer (i j : Int) : L.Tells (.integer i) (.integer j) (i = j) :=
  fun depth => L.reveals_integer depth i j

/-- Decimals are told apart as far as the layout does that. -/
lemma tells_decimal (d e : Decimal) : L.Tells (.decimal d) (.decimal e) (L.Same d e) :=
  fun depth => L.reveals_decimal depth d e

lemma tells_character (c d : Char) : L.Tells (.character c) (.character d) (c = d) :=
  fun depth => L.reveals_character depth c d

lemma tells_text (s t : String) : L.Tells (.text s) (.text t) (s = t) :=
  fun depth => L.reveals_text depth s t

lemma tells_number (m n : Nat) : L.Tells (.number m) (.number n) (m = n) :=
  fun depth => L.reveals_number depth m n

/-- Lists of texts are told apart text by text. -/
lemma itemsTell_texts (ss ts : List String) :
    L.ItemsTell (ss.map .text) (ts.map .text) (ss = ts) :=
  (itemsTell_map tells_text ss ts).imp fun h => List.forall₂_eq_eq_eq ▸ h

/-! ## Tokens -/

/-- The kinds of tokens have names of their own. -/
lemma tells_kind (k l : Token.Kind) : L.Tells (.constant k.name) (.constant l.name) (k = l) := by
  have hlettered : ∀ k : Token.Kind, Lettered k.name := by
    intro k
    cases k <;> simp [Lettered, Token.Kind.name]
  have hne : ∀ k l : Token.Kind, k ≠ l → k.name ≠ l.name := by
    intro k l
    cases k <;> cases l <;> decide
  by_cases hkl : k = l
  · subst hkl
    exact fun _ => .refl _ rfl
  · exact tells_of_named_ne (named_constant _) (named_constant _) (hlettered k) (hlettered l)
      (hne k l hkl)

/-- Tokens are told apart by kind, text and place. -/
theorem tells_token (t u : Token) : L.Tells t.datum u.datum (t = u) := by
  obtain ⟨kind, literal, offset⟩ := t
  obtain ⟨kind', literal', offset'⟩ := u
  have hparts := ((tells_kind (L := L) kind kind').part "kind").append
    (((tells_text literal literal').part "literal").append
      ((tells_number offset offset').part "offset"))
  refine (hparts.record "Token").imp ?_
  rintro ⟨rfl, rfl, rfl⟩
  rfl

end Layout

end LetDef
