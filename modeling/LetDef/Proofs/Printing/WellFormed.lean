import LetDef.Proofs.Grammar.Derivation
import LetDef.Proofs.Lexical.Spelling
import LetDef.Proofs.Printing.Rendering

/-!
# Well-formed programs

Not every tree is what some text stands for.  A tree may have a name that is spelled as no name is,
an operator that binds more loosely than its place allows, or a statement that starts with a word
that decides on another form.  Well-formed trees have none of this.  The conditions are about the
tree and the words that `Program.render` would write, and they mention neither tokens nor rules.

Statements come with the words that end the block they stand in.  The block of a choice before its
`ELSE` is ended by two words, every other block by one.
-/

namespace LetDef

/-- The text is spelled as a name. -/
def IsIdentifier (name : String) : Prop :=
  Spelling .identifier name.toList

/-- The value can be spelled: a decimal has digits after the point, and so many that they can be
counted. -/
def Literal.WellFormed : Literal → Prop
  | .decimal d => 1 ≤ d.scale ∧ Decimal.IsScale d.scale
  | _ => True

/-! ## Expressions -/

/-- How tightly the operators of a level bind, from the loosest level on. -/
def Level.tightness : Level → Nat
  | logical => 0
  | equality => 1
  | additive => 2
  | multiplicative => 3

/-- The expression is made by an operator. -/
def Expr.IsBinary : Expr → Prop
  | .binary _ _ _ => True
  | _ => False

/-- The expression is made by an operator of the level. -/
def Expr.HasLevel (e : Expr) (level : Level) : Prop :=
  ∃ operator left right, e = .binary operator left right ∧ operator ∈ level.operators

lemma not_hasLevel_of_not_isBinary {e : Expr} (h : ¬ e.IsBinary) (level : Level) :
    ¬ e.HasLevel level := by
  rintro ⟨operator, left, right, rfl, -⟩
  exact h trivial

/-- The expression is what some tokens spell. -/
inductive Expr.WellFormed : Expr → Prop where
  | literal {v : Literal} : v.WellFormed → WellFormed (.literal v)
  | group {e : Expr} : e.WellFormed → WellFormed (.group e)
  | binary {level : Level} {operator : String} {left right : Expr} :
      operator ∈ level.operators → left.WellFormed → right.WellFormed →
      (∀ l, left.HasLevel l → level.tightness ≤ l.tightness) →
      (∀ l, right.HasLevel l → level.tightness < l.tightness) →
      WellFormed (.binary operator left right)
  | var {name : String} : IsIdentifier name → name ∉ constantWords → WellFormed (.var name)
  | member {receiver : Expr} {name : String} :
      receiver.WellFormed → ¬ receiver.IsBinary → IsIdentifier name →
      WellFormed (.member receiver name)
  | call {name : String} {arguments : List Expr} :
      IsIdentifier name → name ∉ constantWords → (∀ e ∈ arguments, e.WellFormed) →
      WellFormed (.call name arguments)
  | invoke {receiver : Expr} {name : String} {arguments : List Expr} :
      receiver.WellFormed → ¬ receiver.IsBinary → IsIdentifier name →
      (∀ e ∈ arguments, e.WellFormed) → WellFormed (.invoke receiver name arguments)

/-- The first word of the expression leaves it to be read as one, also in a block that the words
`enders` end. -/
def Expr.StartsStatement (enders : List String) (e : Expr) : Prop :=
  ∀ w ∈ e.words.head?, w ∉ statementWords ∧ w ∉ enders

/-! ## Statements and programs -/

/-- The binding has a name, and so has its type. -/
structure Binding.WellFormed (b : Binding) : Prop where
  name : IsIdentifier b.name
  typeName : ∀ name ∈ b.typeName, IsIdentifier name
  value : ∀ e ∈ b.value, e.WellFormed

/-- The statement is what some tokens spell in a block that the words end. -/
inductive Stmt.WellFormed : List String → Stmt → Prop where
  | expression {enders : List String} {e : Expr} :
      e.WellFormed → e.StartsStatement enders → WellFormed enders (.expression e)
  | declaration {enders : List String} {b : Binding} :
      b.WellFormed → WellFormed enders (.declaration b)
  | assignment {enders : List String} {e f : Expr} :
      e.WellFormed → e.StartsStatement enders → f.WellFormed → WellFormed enders (.assignment e f)
  | conditional {enders : List String} {e : Expr} {thenBlock elseBlock : List Stmt} :
      e.WellFormed → (∀ s ∈ thenBlock, WellFormed thenEnders s) →
      (∀ s ∈ elseBlock, WellFormed blockEnders s) →
      WellFormed enders (.conditional e thenBlock elseBlock)
  | forEach {enders : List String} {name : String} {e : Expr} {body : List Stmt} :
      IsIdentifier name → e.WellFormed → (∀ s ∈ body, WellFormed blockEnders s) →
      WellFormed enders (.forEach name e body)
  | whileLoop {enders : List String} {e : Expr} {body : List Stmt} :
      e.WellFormed → (∀ s ∈ body, WellFormed blockEnders s) →
      WellFormed enders (.whileLoop e body)
  | result {enders : List String} {value : Option Expr} :
      (∀ e ∈ value, e.WellFormed) → WellFormed enders (.result value)

/-- The method has names, and a body that some tokens spell. -/
structure Method.WellFormed (m : Method) : Prop where
  name : IsIdentifier m.name
  parameters : ∀ name ∈ m.parameters, IsIdentifier name
  statements : ∀ s ∈ m.statements, s.WellFormed blockEnders

/-- The program is what some tokens spell. -/
structure Program.WellFormed (p : Program) : Prop where
  fields : ∀ b ∈ p.fields, b.WellFormed
  methods : ∀ m ∈ p.methods, m.WellFormed

end LetDef
