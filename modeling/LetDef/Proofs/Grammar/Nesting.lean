import LetDef.Program.Basic

/-!
# How deeply programs nest

The *need* of a tree is the smallest limit under which it can be read.  Reading an expression costs
one unit, and so does reading a block.  Inside an expression it is groups and arguments that hold
further expressions, so the need of an expression is one more than its nesting, the largest need
of those.  Chains of operators, members and calls cost nothing, however long they are.
-/

namespace LetDef

mutual

/-- The largest need of the expressions inside groups and arguments. -/
def Expr.nesting : Expr → Nat
  | .literal _ => 0
  | .group inner => inner.nesting + 1
  | .binary _ left right => max left.nesting right.nesting
  | .var _ => 0
  | .member receiver _ => receiver.nesting
  | .call _ arguments => Expr.largestNeed arguments
  | .invoke receiver _ arguments => max receiver.nesting (Expr.largestNeed arguments)

/-- The largest need of some expressions. -/
def Expr.largestNeed : List Expr → Nat
  | [] => 0
  | e :: es => max (e.nesting + 1) (Expr.largestNeed es)

end

/-- The need of an expression. -/
def Expr.need (e : Expr) : Nat := e.nesting + 1

/-- The need of an expression that may be missing. -/
def Expr.needOfOption : Option Expr → Nat
  | none => 0
  | some e => e.need

/-- The need of a binding. -/
def Binding.need (b : Binding) : Nat := Expr.needOfOption b.value

mutual

/-- The need of a statement: the largest need of its expressions and blocks. -/
def Stmt.need : Stmt → Nat
  | .expression value => value.need
  | .declaration binding => binding.need
  | .assignment receiver value => max receiver.need value.need
  | .conditional condition thenBlock elseBlock =>
    max condition.need (max (Stmt.largestNeed thenBlock + 1) (Stmt.largestNeed elseBlock + 1))
  | .forEach _ value body => max value.need (Stmt.largestNeed body + 1)
  | .whileLoop condition body => max condition.need (Stmt.largestNeed body + 1)
  | .result value => Expr.needOfOption value

/-- The largest need of some statements. -/
def Stmt.largestNeed : List Stmt → Nat
  | [] => 0
  | s :: ss => max s.need (Stmt.largestNeed ss)

end

/-- The need of a block. -/
def Stmt.needOfBlock (ss : List Stmt) : Nat := Stmt.largestNeed ss + 1

/-- The need of a method. -/
def Method.need (m : Method) : Nat := Stmt.needOfBlock m.statements

/-- The need of a program: the largest need of its fields and methods. -/
def Program.need (p : Program) : Nat :=
  max ((p.fields.map Binding.need).foldr max 0) ((p.methods.map Method.need).foldr max 0)

theorem foldr_max_le_iff {ns : List Nat} {n : Nat} : ns.foldr max 0 ≤ n ↔ ∀ m ∈ ns, m ≤ n := by
  induction ns with
  | nil => simp
  | cons m ns ih => rw [List.foldr_cons, Nat.max_le, ih, List.forall_mem_cons]

theorem Program.need_le_iff {p : Program} {n : Nat} :
    p.need ≤ n ↔ (∀ b ∈ p.fields, b.need ≤ n) ∧ ∀ m ∈ p.methods, m.need ≤ n := by
  rw [Program.need, Nat.max_le, foldr_max_le_iff, foldr_max_le_iff, List.forall_mem_map,
    List.forall_mem_map]

end LetDef
