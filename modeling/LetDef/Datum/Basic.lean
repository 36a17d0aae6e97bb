import LetDef.Literal.Decimal
import LetDef.Program.Basic
import LetDef.Fault
import LetDef.Token.Basic

/-!
# Trees for writing values down

Tokens, programs and faults are written down in several layouts, which differ in indentation and
spelling but agree on what there is to write.  A `Datum` is that common part: a tree of named parts.
This module also says which tree stands for each kind of value; the layouts are in
`LetDef.Datum.Debug` and `LetDef.Datum.Ron`.

A record always bears a name, a choice between forms is a name with the form's content tagged on,
and a part that may be missing is either absent or present.
-/

namespace LetDef

/-- A tree of named parts. -/
inductive Datum where
  /-- A name by itself. -/
  | constant (name : String)
  /-- A truth value. -/
  | bool (value : Bool)
  /-- An index or a count. -/
  | number (value : Nat)
  /-- An integer of any size. -/
  | integer (value : Int)
  /-- A decimal number. -/
  | decimal (value : Decimal)
  /-- A single character. -/
  | character (value : Char)
  /-- A text. -/
  | text (value : String)
  /-- A part that is missing. -/
  | absent
  /-- A part that could be missing. -/
  | present (inner : Datum)
  /-- A form and its content. -/
  | tagged (name : String) (inner : Datum)
  /-- Parts with labels. -/
  | record (name : String) (parts : List (String × Datum))
  /-- Values in order. -/
  | list (items : List Datum)

namespace Datum

/-- A part that may be missing. -/
def ofOption : Option Datum → Datum
  | none => absent
  | some inner => present inner

end Datum

/-- A line break, and the indentation of a line at the given depth. -/
def Datum.newLine (width depth : Nat) : List Char :=
  '\n' :: List.replicate (width * depth) ' '

/-! ## Tokens and faults -/

/-- The tree of a token. -/
def Token.datum (token : Token) : Datum :=
  .record "Token" [("kind", .constant token.kind.name), ("literal", .text token.literal),
    ("offset", .number token.offset)]

/-- The tree of a token list. -/
def Datum.ofTokens (tokens : List Token) : Datum :=
  .list (tokens.map Token.datum)

/-- The tree of a cause. -/
def Cause.datum : Cause → Datum
  | .expected what => .tagged "Expected" (.text what)
  | cause => .constant cause.name

/-- The tree of a fault. -/
def Fault.datum (fault : Fault) : Datum :=
  .record "ParseError" [("kind", fault.cause.datum), ("offset", .number fault.offset)]

/-! ## Programs -/

/-- The tree of a literal. -/
def Literal.datum : Literal → Datum
  | .nil => .constant "Nil"
  | .bool value => .tagged "Bool" (.bool value)
  | .integer value => .tagged "Integer" (.integer value)
  | .decimal value => .tagged "Decimal" (.decimal value)
  | .character value => .tagged "Character" (.character value)
  | .string value => .tagged "String" (.text value)

/-- The tree of an access to a variable or, if there is a receiver, to a member of it. -/
def Datum.access (receiver : Option Datum) (name : String) : Datum :=
  .tagged "Access" (.record "Access" [("receiver", .ofOption receiver), ("name", .text name)])

/-- The tree of a call, on a receiver or without one. -/
def Datum.call (receiver : Option Datum) (name : String) (arguments : List Datum) : Datum :=
  .tagged "Function" (.record "Function"
    [("receiver", .ofOption receiver), ("name", .text name), ("arguments", .list arguments)])

mutual

/-- The tree of an expression. -/
def Expr.datum : Expr → Datum
  | .literal value => .tagged "Literal" value.datum
  | .group inner => .tagged "Group" inner.datum
  | .binary operator left right =>
    .tagged "Binary" (.record "Binary"
      [("operator", .text operator), ("left", left.datum), ("right", right.datum)])
  | .var name => .access none name
  | .member receiver name => .access (some receiver.datum) name
  | .call name arguments => .call none name (Expr.data arguments)
  | .invoke receiver name arguments => .call (some receiver.datum) name (Expr.data arguments)

/-- The trees of expressions. -/
def Expr.data : List Expr → List Datum
  | [] => []
  | e :: es => e.datum :: Expr.data es

end

/-- The tree of a binding, under the name that it bears where it stands. -/
def Binding.datum (recordName : String) (b : Binding) : Datum :=
  .record recordName [("name", .text b.name), ("type_name", .ofOption (b.typeName.map .text)),
    ("value", .ofOption (b.value.map Expr.datum))]

mutual

/-- The tree of a statement. -/
def Stmt.datum : Stmt → Datum
  | .expression value => .tagged "Expression" value.datum
  | .declaration binding => .tagged "Declaration" (binding.datum "Declaration")
  | .assignment receiver value =>
    .tagged "Assignment" (.record "Assignment"
      [("receiver", receiver.datum), ("value", value.datum)])
  | .conditional condition thenBlock elseBlock =>
    .tagged "If" (.record "If" [("condition", condition.datum),
      ("then_statements", .list (Stmt.data thenBlock)),
      ("else_statements", .list (Stmt.data elseBlock))])
  | .forEach name value body =>
    .tagged "For" (.record "For" [("name", .text name), ("value", value.datum),
      ("statements", .list (Stmt.data body))])
  | .whileLoop condition body =>
    .tagged "While" (.record "While" [("condition", condition.datum),
      ("statements", .list (Stmt.data body))])
  | .result value => .tagged "Return" (.ofOption (value.map Expr.datum))

/-- The trees of statements. -/
def Stmt.data : List Stmt → List Datum
  | [] => []
  | s :: rest => s.datum :: Stmt.data rest

end

/-- The tree of a method. -/
def Method.datum (m : Method) : Datum :=
  .record "Method" [("name", .text m.name), ("parameters", .list (m.parameters.map .text)),
    ("statements", .list (Stmt.data m.statements))]

/-- The tree of a program. -/
def Program.datum (p : Program) : Datum :=
  .record "Source" [("fields", .list (p.fields.map (Binding.datum "Field"))),
    ("methods", .list (p.methods.map Method.datum))]

end LetDef
