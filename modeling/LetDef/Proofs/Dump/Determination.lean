import LetDef.Proofs.CommandLine.Passes
import LetDef.Proofs.Dump.Alike
import LetDef.Proofs.Dump.Telling

/-!
# Dumps determine what was dumped

Whatever the layout, the text of a program reveals it up to the decimals that the layout does not
tell apart: `Expr.tells` and `Stmt.tells` follow two trees side by side, and where their forms
differ the names of the forms do, too.  The relation between decimals is the one of the layout, so
the debug layout reveals the program itself and the object notation reveals it up to the scale of
equal numbers.
-/

namespace LetDef

/-! ## Accesses and calls -/

namespace Layout

variable {L : Layout} {P Q : Prop}

lemma Tells.access {o o' : Option Datum} (h : L.Tells (.ofOption o) (.ofOption o') P)
    (x y : String) : L.Tells (.access o x) (.access o' y) (P ∧ x = y) :=
  (((h.part "receiver").append ((tells_text x y).part "name")).record "Access").tagged "Access"

lemma Tells.call {o o' : Option Datum} {xs ys : List Datum}
    (h : L.Tells (.ofOption o) (.ofOption o') P) (x y : String) (hargs : L.ItemsTell xs ys Q) :
    L.Tells (.call o x xs) (.call o' y ys) (P ∧ x = y ∧ Q) :=
  (((h.part "receiver").append
    (((tells_text x y).part "name").append (hargs.list.part "arguments"))).record
      "Function").tagged "Function"

end Layout

/-! ## Programs -/

/-- The name of the form of a literal. -/
def Literal.form : Literal → String
  | .nil => "Nil"
  | .bool _ => "Bool"
  | .integer _ => "Integer"
  | .decimal _ => "Decimal"
  | .character _ => "Character"
  | .string _ => "String"

/-- The name of the form of an expression. -/
def Expr.form : Expr → String
  | .literal _ => "Literal"
  | .group _ => "Group"
  | .binary _ _ _ => "Binary"
  | .var _ | .member _ _ => "Access"
  | .call _ _ | .invoke _ _ _ => "Function"

/-- The name of the form of a statement. -/
def Stmt.form : Stmt → String
  | .expression _ => "Expression"
  | .declaration _ => "Declaration"
  | .assignment _ _ => "Assignment"
  | .conditional _ _ _ => "If"
  | .forEach _ _ _ => "For"
  | .whileLoop _ _ => "While"
  | .result _ => "Return"

section Forms

variable {L : Layout} {P : Prop}

lemma Literal.tells_of_form_ne {v w : Literal} (h : v.form ≠ w.form) :
    L.Tells v.datum w.datum P := by
  have hlettered : ∀ v : Literal, Lettered v.form := by
    intro v
    cases v <;> simp [Lettered, form]
  have hnamed : ∀ v : Literal, L.Named v.datum v.form := by
    intro v
    cases v with
    | nil => exact Layout.named_constant _
    | _ => exact Layout.named_tagged _ _
  exact Layout.tells_of_named_ne (hnamed v) (hnamed w) (hlettered v) (hlettered w) h

lemma Expr.tells_of_form_ne {e f : Expr} (h : e.form ≠ f.form) : L.Tells e.datum f.datum P := by
  have hlettered : ∀ e : Expr, Lettered e.form := by
    intro e
    cases e <;> simp [Lettered, form]
  have hnamed : ∀ e : Expr, L.Named e.datum e.form := by
    intro e
    cases e <;> rw [datum] <;> exact Layout.named_tagged _ _
  exact Layout.tells_of_named_ne (hnamed e) (hnamed f) (hlettered e) (hlettered f) h

lemma Stmt.tells_of_form_ne {s t : Stmt} (h : s.form ≠ t.form) : L.Tells s.datum t.datum P := by
  have hlettered : ∀ s : Stmt, Lettered s.form := by
    intro s
    cases s <;> simp [Lettered, form]
  have hnamed : ∀ s : Stmt, L.Named s.datum s.form := by
    intro s
    cases s <;> rw [datum] <;> exact Layout.named_tagged _ _
  exact Layout.tells_of_named_ne (hnamed s) (hnamed t) (hlettered s) (hlettered t) h

end Forms

theorem Literal.tells (L : Layout) (v w : Literal) :
    L.Tells v.datum w.datum (v.Alike L.Same w) := by
  cases v with
  | nil =>
    cases w with
    | nil => exact fun depth => .refl _ rfl
    | _ => exact tells_of_form_ne (by simp [form])
  | bool b =>
    cases w with
    | bool c => exact ((Layout.tells_bool b c).tagged "Bool").imp (congrArg _)
    | _ => exact tells_of_form_ne (by simp [form])
  | integer i =>
    cases w with
    | integer j => exact ((Layout.tells_integer i j).tagged "Integer").imp (congrArg _)
    | _ => exact tells_of_form_ne (by simp [form])
  | decimal d =>
    cases w with
    | decimal e => exact (Layout.tells_decimal d e).tagged "Decimal"
    | _ => exact tells_of_form_ne (by simp [form])
  | character c =>
    cases w with
    | character d => exact ((Layout.tells_character c d).tagged "Character").imp (congrArg _)
    | _ => exact tells_of_form_ne (by simp [form])
  | string s =>
    cases w with
    | string t => exact ((Layout.tells_text s t).tagged "String").imp (congrArg _)
    | _ => exact tells_of_form_ne (by simp [form])

mutual

/-- The texts of two expressions reveal that the expressions are alike. -/
theorem Expr.tells (L : Layout) : ∀ e f : Expr, L.Tells e.datum f.datum (e.Alike L.Same f)
  | .literal v, f => by
    cases f with
    | literal w => exact (v.tells L w).tagged "Literal"
    | _ => exact tells_of_form_ne (by simp [form])
  | .group e, f => by
    cases f with
    | group f => exact (Expr.tells L e f).tagged "Group"
    | _ => exact tells_of_form_ne (by simp [form])
  | .binary o l r, f => by
    cases f with
    | binary o' l' r' =>
      have hparts := ((Layout.tells_text (L := L) o o').part "operator").append
        (((Expr.tells L l l').part "left").append ((Expr.tells L r r').part "right"))
      exact (hparts.record "Binary").tagged "Binary"
    | _ => exact tells_of_form_ne (by simp [form])
  -- A variable and a member bear one name, as do the two kinds of calls: the receiver decides.
  | .var x, f => by
    cases f with
    | var y => exact (Layout.tells_absent.access x y).imp And.right
    | member f y => exact ((Layout.tells_absent_present _).access x y).imp And.left
    | _ => exact tells_of_form_ne (by simp [form])
  | .member e x, f => by
    cases f with
    | var y => exact ((Layout.tells_present_absent _).access x y).imp And.left
    | member f y => exact (Expr.tells L e f).present.access x y
    | _ => exact tells_of_form_ne (by simp [form])
  | .call x es, f => by
    cases f with
    | call y fs => exact (Layout.tells_absent.call x y (Expr.itemsTell L es fs)).imp And.right
    | invoke f y fs =>
      exact ((Layout.tells_absent_present _).call x y (Expr.itemsTell L es fs)).imp And.left
    | _ => exact tells_of_form_ne (by simp [form])
  | .invoke e x es, f => by
    cases f with
    | call y fs =>
      exact ((Layout.tells_present_absent _).call x y (Expr.itemsTell L es fs)).imp And.left
    | invoke f y fs => exact (Expr.tells L e f).present.call x y (Expr.itemsTell L es fs)
    | _ => exact tells_of_form_ne (by simp [form])

theorem Expr.itemsTell (L : Layout) : ∀ es fs : List Expr,
    L.ItemsTell (Expr.data es) (Expr.data fs) (Expr.AllAlike L.Same es fs)
  | [], [] => Layout.itemsTell_nil
  | [], _ :: _ => Layout.itemsTell_nil_cons _ _
  | _ :: _, [] => Layout.itemsTell_cons_nil _ _
  | e :: es, f :: fs => (Expr.tells L e f).cons (Expr.itemsTell L es fs)

end

lemma Binding.tells (L : Layout) (recordName : String) (b c : Binding) :
    L.Tells (b.datum recordName) (c.datum recordName) (b.Alike L.Same c) := by
  have hparts := ((Layout.tells_text (L := L) b.name c.name).part "name").append
    (((Layout.tells_ofOption Layout.tells_text b.typeName c.typeName).part "type_name").append
      ((Layout.tells_ofOption (Expr.tells L) b.value c.value).part "value"))
  refine (hparts.record recordName).imp ?_
  rintro ⟨hname, htype, hvalue⟩
  exact ⟨hname, eq_of_optionRel id htype, hvalue⟩

mutual

/-- The texts of two statements reveal that the statements are alike. -/
theorem Stmt.tells (L : Layout) : ∀ s t : Stmt, L.Tells s.datum t.datum (s.Alike L.Same t)
  | .expression e, t => by
    cases t with
    | expression f => exact (e.tells L f).tagged "Expression"
    | _ => exact tells_of_form_ne (by simp [form])
  | .declaration b, t => by
    cases t with
    | declaration c => exact (b.tells L "Declaration" c).tagged "Declaration"
    | _ => exact tells_of_form_ne (by simp [form])
  | .assignment e v, t => by
    cases t with
    | assignment f w =>
      have hparts := ((e.tells L f).part "receiver").append ((v.tells L w).part "value")
      exact (hparts.record "Assignment").tagged "Assignment"
    | _ => exact tells_of_form_ne (by simp [form])
  | .conditional e ss ts, t => by
    cases t with
    | conditional f ss' ts' =>
      have hparts := ((e.tells L f).part "condition").append
        (((Stmt.itemsTell L ss ss').list.part "then_statements").append
          ((Stmt.itemsTell L ts ts').list.part "else_statements"))
      exact (hparts.record "If").tagged "If"
    | _ => exact tells_of_form_ne (by simp [form])
  | .forEach x e ss, t => by
    cases t with
    | forEach y f ss' =>
      have hparts := ((Layout.tells_text (L := L) x y).part "name").append
        (((e.tells L f).part "value").append ((Stmt.itemsTell L ss ss').list.part "statements"))
      exact (hparts.record "For").tagged "For"
    | _ => exact tells_of_form_ne (by simp [form])
  | .whileLoop e ss, t => by
    cases t with
    | whileLoop f ss' =>
      have hparts := ((e.tells L f).part "condition").append
        ((Stmt.itemsTell L ss ss').list.part "statements")
      exact (hparts.record "While").tagged "While"
    | _ => exact tells_of_form_ne (by simp [form])
  | .result v, t => by
    cases t with
    | result w => exact (Layout.tells_ofOption (Expr.tells L) v w).tagged "Return"
    | _ => exact tells_of_form_ne (by simp [form])

theorem Stmt.itemsTell (L : Layout) : ∀ ss ts : List Stmt,
    L.ItemsTell (Stmt.data ss) (Stmt.data ts) (Stmt.AllAlike L.Same ss ts)
  | [], [] => Layout.itemsTell_nil
  | [], _ :: _ => Layout.itemsTell_nil_cons _ _
  | _ :: _, [] => Layout.itemsTell_cons_nil _ _
  | s :: ss, t :: ts => (Stmt.tells L s t).cons (Stmt.itemsTell L ss ts)

end

lemma Method.tells (L : Layout) (m n : Method) : L.Tells m.datum n.datum (m.Alike L.Same n) := by
  have hparts := ((Layout.tells_text (L := L) m.name n.name).part "name").append
    (((Layout.itemsTell_texts m.parameters n.parameters).list.part "parameters").append
      ((Stmt.itemsTell L m.statements n.statements).list.part "statements"))
  exact hparts.record "Method"

/-- The texts of two programs reveal that the programs are alike. -/
theorem Program.tells (L : Layout) (p q : Program) :
    L.Tells p.datum q.datum (p.Alike L.Same q) := by
  have hparts :=
    ((Layout.itemsTell_map (Binding.tells L "Field") p.fields q.fields).list.part "fields").append
      ((Layout.itemsTell_map (Method.tells L) p.methods q.methods).list.part "methods")
  exact hparts.record "Source"

/-! ## Dumps -/

/-- The layout of a format. -/
def Format.layout : Format → Layout
  | .debug => Layout.debug
  | .ron => Layout.ron

lemma Format.toList_of_write {format : Format} {x : Datum} {text : String}
    (h : format.write x = .ok text) : text.toList = format.layout.write 0 x ++ ['\n'] := by
  have hend : "\n".toList = ['\n'] := rfl
  cases format with
  | debug =>
    obtain rfl : x.debug ++ "\n" = text := Except.ok.inj h
    rw [String.toList_append, hend, Datum.debug, String.toList_ofList]
    rfl
  | ron =>
    by_cases hnesting : x.nesting ≤ Datum.maxNesting
    · rw [write, Datum.ron?, if_pos hnesting] at h
      obtain rfl : String.ofList (x.ronAt 0) ++ "\n" = text := Except.ok.inj h
      rw [String.toList_append, hend, String.toList_ofList]
      rfl
    · rw [write, Datum.ron?, if_neg hnesting] at h
      exact absurd h (by simp)

/-- What the texts of two trees reveal holds if the dumps of the trees are the same. -/
lemma Format.holds_of_write {format : Format} {x y : Datum} {P : Prop}
    (h : format.layout.Tells x y P) {text : String} (hx : format.write x = .ok text)
    (hy : format.write y = .ok text) : P := by
  have heq : format.layout.write 0 x ++ ['\n'] = format.layout.write 0 y ++ ['\n'] := by
    rw [← toList_of_write hx, ← toList_of_write hy]
  exact (h 0).holds (List.append_cancel_right heq)

/-- Dumps determine what was dumped.  A token list is known from its dump in either format, and a
program from its debug dump.  From a dump in the object notation a program is known except for the
scales of its decimals: decimals in the same place denote the same number, and nothing else
differs. -/
theorem dump_determines :
    (∀ (format : Format) (ts us : List Token),
      format.write (.ofTokens ts) = format.write (.ofTokens us) → ts = us) ∧
    (∀ p q : Program, Format.debug.write p.datum = Format.debug.write q.datum → p = q) ∧
    (∀ (p q : Program) (text : String), Format.ron.write p.datum = .ok text →
      Format.ron.write q.datum = .ok text → p.Alike (fun d e => d.value = e.value) q) := by
  refine ⟨?tokens, ?debug, ?ron⟩
  case tokens =>
    intro format ts us heq
    obtain ⟨text, hts⟩ := CommandLine.exists_write_ofTokens format ts
    have htells : format.layout.Tells (.ofTokens ts) (.ofTokens us) (List.Forall₂ Eq ts us) :=
      (Layout.itemsTell_map Layout.tells_token ts us).list
    exact eq_of_forall₂ id (Format.holds_of_write htells hts (heq ▸ hts))
  case debug =>
    intro p q heq
    have htells : Format.debug.layout.Tells p.datum q.datum (p.Alike Eq q) := p.tells .debug q
    exact Program.eq_of_alike (Format.holds_of_write htells rfl heq.symm)
  case ron =>
    intro p q text hp hq
    have htells : Format.ron.layout.Tells p.datum q.datum
      (p.Alike (fun d e => d.value = e.value) q) := p.tells .ron q
    exact Format.holds_of_write htells hp hq

/-- A field of the given value. -/
def Program.ofDecimal (d : Decimal) : Program :=
  ⟨[⟨"x", none, some (.literal (.decimal d))⟩], []⟩

/-- Ten is written alike with and without a scale, but only in the object notation, and not as a
token. -/
theorem dump_determines_ten :
    (∃ text, Format.ron.write (Program.ofDecimal ⟨10, 0⟩).datum = .ok text ∧
      Format.ron.write (Program.ofDecimal ⟨1, -1⟩).datum = .ok text ∧
      (Program.ofDecimal ⟨10, 0⟩).Alike (fun d e => d.value = e.value)
        (Program.ofDecimal ⟨1, -1⟩)) ∧
    Format.debug.write (Program.ofDecimal ⟨10, 0⟩).datum ≠
      Format.debug.write (Program.ofDecimal ⟨1, -1⟩).datum ∧
    Format.ron.write (.ofTokens [⟨.decimal, "10.0", 0⟩]) ≠
      Format.ron.write (.ofTokens [⟨.decimal, "10.00", 0⟩]) := by
  obtain ⟨htokens, hdebug, hron⟩ := dump_determines
  refine ⟨?_, ?_, ?_⟩
  · have hwrite : ∀ d, Format.ron.write (Program.ofDecimal d).datum =
        .ok (String.ofList ((Program.ofDecimal d).datum.ronAt 0) ++ "\n") := by
      intro d
      have hnesting : (Program.ofDecimal d).datum.nesting ≤ Datum.maxNesting := by
        simp [Program.ofDecimal, Program.datum, Binding.datum, Expr.datum, Literal.datum,
          Datum.ofOption, Datum.nesting, Datum.nestingParts, Datum.nestingItems, Datum.maxNesting]
      rw [Format.write, Datum.ron?, if_pos hnesting]
    have hchars : Decimal.chars ⟨1, -1⟩ = Decimal.chars ⟨10, 0⟩ := by decide
    have hone : (Program.ofDecimal ⟨1, -1⟩).datum.ronAt 0 =
        (Program.ofDecimal ⟨10, 0⟩).datum.ronAt 0 := by
      simp only [Program.ofDecimal, Program.datum, Binding.datum, Expr.datum, Literal.datum,
        Option.map_some, Datum.ofOption, List.map_cons, List.map_nil, Datum.ronAt, Datum.ronParts,
        Datum.ronItems, hchars]
    have hten := hwrite ⟨1, -1⟩
    rw [hone] at hten
    exact ⟨_, hwrite ⟨10, 0⟩, hten, hron _ _ _ (hwrite ⟨10, 0⟩) hten⟩
  · intro h
    exact absurd (hdebug _ _ h) (by simp [Program.ofDecimal])
  · intro h
    exact absurd (htokens .ron _ _ h) (by decide)

end LetDef
