import Mathlib
import LetDef.Program.Basic

/-!
# Programs that are alike

Two programs are alike if they have the same form and equal leaves, except that decimal numbers need
only be related to each other.  The relation is a parameter: for equality the programs are equal
(`Program.eq_of_alike`), and for a coarser relation they may differ in decimals and nowhere else.
-/

namespace LetDef

section Alike

variable (R : Decimal → Decimal → Prop)

/-- Literals of the same form and value, with related decimals. -/
def Literal.Alike : Literal → Literal → Prop
  | .decimal d, .decimal e => R d e
  | v, w => v = w

mutual

/-- Expressions of the same form, with related decimals. -/
def Expr.Alike : Expr → Expr → Prop
  | .literal v, .literal w => v.Alike R w
  | .group e, .group f => e.Alike f
  | .binary o l r, .binary o' l' r' => o = o' ∧ l.Alike l' ∧ r.Alike r'
  | .var x, .var y => x = y
  | .member e x, .member f y => e.Alike f ∧ x = y
  | .call x es, .call y fs => x = y ∧ Expr.AllAlike es fs
  | .invoke e x es, .invoke f y fs => e.Alike f ∧ x = y ∧ Expr.AllAlike es fs
  | _, _ => False

/-- Lists of expressions that are alike one by one. -/
def Expr.AllAlike : List Expr → List Expr → Prop
  | [], [] => True
  | e :: es, f :: fs => e.Alike f ∧ Expr.AllAlike es fs
  | _, _ => False

end

/-- Bindings of the same names, with values that are alike if there are any. -/
def Binding.Alike (b c : Binding) : Prop :=
  b.name = c.name ∧ b.typeName = c.typeName ∧ Option.Rel (Expr.Alike R) b.value c.value

mutual

/-- Statements of the same form, with related decimals. -/
def Stmt.Alike : Stmt → Stmt → Prop
  | .expression e, .expression f => e.Alike R f
  | .declaration b, .declaration c => b.Alike R c
  | .assignment e v, .assignment f w => e.Alike R f ∧ v.Alike R w
  | .conditional e ss ts, .conditional f ss' ts' =>
    e.Alike R f ∧ Stmt.AllAlike ss ss' ∧ Stmt.AllAlike ts ts'
  | .forEach x e ss, .forEach y f ss' => x = y ∧ e.Alike R f ∧ Stmt.AllAlike ss ss'
  | .whileLoop e ss, .whileLoop f ss' => e.Alike R f ∧ Stmt.AllAlike ss ss'
  | .result v, .result w => Option.Rel (Expr.Alike R) v w
  | _, _ => False

/-- Lists of statements that are alike one by one. -/
def Stmt.AllAlike : List Stmt → List Stmt → Prop
  | [], [] => True
  | s :: ss, t :: ts => s.Alike t ∧ Stmt.AllAlike ss ts
  | _, _ => False

end

/-- Methods of the same names, with statements that are alike. -/
def Method.Alike (m n : Method) : Prop :=
  m.name = n.name ∧ m.parameters = n.parameters ∧ Stmt.AllAlike R m.statements n.statements

/-- Programs whose fields and methods are alike one by one. -/
def Program.Alike (p q : Program) : Prop :=
  List.Forall₂ (Binding.Alike R) p.fields q.fields ∧
    List.Forall₂ (Method.Alike R) p.methods q.methods

end Alike

/-! ## With equal decimals -/

lemma Literal.eq_of_alike {v w : Literal} (h : v.Alike Eq w) : v = w := by
  cases v <;> cases w <;> first | exact h | exact congrArg decimal h

mutual

lemma Expr.eq_of_alike : ∀ {e f : Expr}, e.Alike Eq f → e = f
  | .literal v, .literal w, h => congrArg Expr.literal (Literal.eq_of_alike h)
  | .group e, .group f, h => congrArg Expr.group (Expr.eq_of_alike h)
  | .binary o l r, .binary o' l' r', h => by
    obtain ⟨rfl, hleft, hright⟩ := h
    rw [Expr.eq_of_alike hleft, Expr.eq_of_alike hright]
  | .var x, .var y, h => congrArg Expr.var h
  | .member e x, .member f y, h => by
    obtain ⟨he, rfl⟩ := h
    rw [Expr.eq_of_alike he]
  | .call x es, .call y fs, h => by
    obtain ⟨rfl, hes⟩ := h
    rw [Expr.eq_of_allAlike hes]
  | .invoke e x es, .invoke f y fs, h => by
    obtain ⟨he, rfl, hes⟩ := h
    rw [Expr.eq_of_alike he, Expr.eq_of_allAlike hes]

lemma Expr.eq_of_allAlike : ∀ {es fs : List Expr}, Expr.AllAlike Eq es fs → es = fs
  | [], [], _ => rfl
  | e :: es, f :: fs, h => by
    obtain ⟨he, hes⟩ := h
    rw [Expr.eq_of_alike he, Expr.eq_of_allAlike hes]

end

lemma eq_of_optionRel {α : Type} {R : α → α → Prop} (hR : ∀ {a b}, R a b → a = b)
    {o o' : Option α} (h : Option.Rel R o o') : o = o' := by
  cases h with
  | none => rfl
  | some h => rw [hR h]

lemma eq_of_forall₂ {α : Type} {R : α → α → Prop} (hR : ∀ {a b}, R a b → a = b)
    {as bs : List α} (h : List.Forall₂ R as bs) : as = bs :=
  List.forall₂_eq_eq_eq ▸ h.imp fun _ _ => hR

lemma Binding.eq_of_alike {b c : Binding} (h : b.Alike Eq c) : b = c := by
  obtain ⟨name, typeName, value⟩ := b
  obtain ⟨name', typeName', value'⟩ := c
  obtain ⟨hname, htype, hvalue⟩ := h
  obtain rfl : name = name' := hname
  obtain rfl : typeName = typeName' := htype
  obtain rfl : value = value' := eq_of_optionRel Expr.eq_of_alike hvalue
  rfl

mutual

lemma Stmt.eq_of_alike : ∀ {s t : Stmt}, s.Alike Eq t → s = t
  | .expression e, .expression f, h => congrArg Stmt.expression (Expr.eq_of_alike h)
  | .declaration b, .declaration c, h => congrArg Stmt.declaration (Binding.eq_of_alike h)
  | .assignment e v, .assignment f w, h => by
    obtain ⟨he, hv⟩ := h
    rw [Expr.eq_of_alike he, Expr.eq_of_alike hv]
  | .conditional e ss ts, .conditional f ss' ts', h => by
    obtain ⟨he, hss, hts⟩ := h
    rw [Expr.eq_of_alike he, Stmt.eq_of_allAlike hss, Stmt.eq_of_allAlike hts]
  | .forEach x e ss, .forEach y f ss', h => by
    obtain ⟨rfl, he, hss⟩ := h
    rw [Expr.eq_of_alike he, Stmt.eq_of_allAlike hss]
  | .whileLoop e ss, .whileLoop f ss', h => by
    obtain ⟨he, hss⟩ := h
    rw [Expr.eq_of_alike he, Stmt.eq_of_allAlike hss]
  | .result v, .result w, h => congrArg Stmt.result (eq_of_optionRel Expr.eq_of_alike h)

lemma Stmt.eq_of_allAlike : ∀ {ss ts : List Stmt}, Stmt.AllAlike Eq ss ts → ss = ts
  | [], [], _ => rfl
  | s :: ss, t :: ts, h => by
    obtain ⟨hs, hss⟩ := h
    rw [Stmt.eq_of_alike hs, Stmt.eq_of_allAlike hss]

end

lemma Method.eq_of_alike {m n : Method} (h : m.Alike Eq n) : m = n := by
  obtain ⟨name, parameters, statements⟩ := m
  obtain ⟨name', parameters', statements'⟩ := n
  obtain ⟨hname, hparameters, hstatements⟩ := h
  obtain rfl : name = name' := hname
  obtain rfl : parameters = parameters' := hparameters
  obtain rfl : statements = statements' := Stmt.eq_of_allAlike hstatements
  rfl

theorem Program.eq_of_alike {p q : Program} (h : p.Alike Eq q) : p = q := by
  obtain ⟨fields, methods⟩ := p
  obtain ⟨fields', methods'⟩ := q
  obtain ⟨hfields, hmethods⟩ := h
  obtain rfl : fields = fields' := eq_of_forall₂ Binding.eq_of_alike hfields
  obtain rfl : methods = methods' := eq_of_forall₂ Method.eq_of_alike hmethods
  rfl

end LetDef
