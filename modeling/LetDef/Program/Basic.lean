import LetDef.Literal.Decimal

/-!
# Programs

A program is a list of fields and a list of methods.  A field binds a name, possibly to a type and a
value; a method has parameters and statements; statements contain expressions and further
statements.

Names, types and operators are kept as they are spelled.  A call or an access with a receiver and
one without are different forms of expression, so that no form has a part that it may lack.
-/

namespace LetDef

/-- A value that is spelled out. -/
inductive Literal where
  /-- The value that stands for nothing. -/
  | nil
  /-- A truth value. -/
  | bool (value : Bool)
  /-- A whole number. -/
  | integer (value : Int)
  /-- A number with a point. -/
  | decimal (value : Decimal)
  /-- A single character. -/
  | character (value : Char)
  /-- A text. -/
  | string (value : String)
deriving DecidableEq

/-- An expression. -/
inductive Expr where
  /-- A value that is spelled out. -/
  | literal (value : Literal)
  /-- An expression in parentheses. -/
  | group (inner : Expr)
  /-- An operator between two expressions. -/
  | binary (operator : String) (left right : Expr)
  /-- A name on its own. -/
  | var (name : String)
  /-- A member of the value of another expression. -/
  | member (receiver : Expr) (name : String)
  /-- A function applied to arguments. -/
  | call (name : String) (arguments : List Expr)
  /-- A method of the value of another expression, applied to arguments. -/
  | invoke (receiver : Expr) (name : String) (arguments : List Expr)

/-- A name that is introduced, with a type and a value if they are given. -/
structure Binding where
  /-- The name that is introduced. -/
  name : String
  /-- The name of its type. -/
  typeName : Option String
  /-- The value it starts with. -/
  value : Option Expr

/-- A statement. -/
inductive Stmt where
  /-- An expression that is evaluated. -/
  | expression (value : Expr)
  /-- A name that is introduced. -/
  | declaration (binding : Binding)
  /-- A value that is stored. -/
  | assignment (receiver value : Expr)
  /-- A choice between two blocks. -/
  | conditional (condition : Expr) (thenBlock elseBlock : List Stmt)
  /-- A block that is run for each element of a value. -/
  | forEach (name : String) (value : Expr) (body : List Stmt)
  /-- A block that is run as long as a condition holds. -/
  | whileLoop (condition : Expr) (body : List Stmt)
  /-- The end of a method, with a value if there is one. -/
  | result (value : Option Expr)

/-- A method: its name, the names of its parameters, and what it does. -/
structure Method where
  /-- The name of the method. -/
  name : String
  /-- The names of its parameters. -/
  parameters : List String
  /-- What it does. -/
  statements : List Stmt

/-- A whole program. -/
structure Program where
  /-- The fields, in order. -/
  fields : List Binding
  /-- The methods, in order. -/
  methods : List Method

end LetDef
