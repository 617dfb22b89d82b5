import Prosaic.Source.Position
import Prosaic.Numeric.Decimal
import Prosaic.Ty.Basic

/-!
Programs as trees. Every node knows the text that it was read from. The checks that follow the
reading leave their results in the tree: types at expressions, and what a call resolved to.
-/

namespace Prosaic

inductive Purity
  | pure | effectful
  deriving DecidableEq, Repr, Inhabited

def Purity.text : Purity → String
  | pure => "pure"
  | effectful => "effectful"

inductive CallTarget
  | function | operation | helper | conversion
  deriving DecidableEq, Repr, Inhabited

def CallTarget.text : CallTarget → String
  | function => "function"
  | operation => "operation"
  | helper => "helper"
  | conversion => "conversion"

structure Name where
  text : String
  span : Span
  deriving DecidableEq, Repr, Inhabited

/-! ### Expressions -/

inductive Literal
  | number (n : Number)
  | string (s : String)
  | boolean (b : Bool)
  deriving DecidableEq, Repr, Inhabited

inductive UnaryOp
  | not | negate
  deriving DecidableEq, Repr, Inhabited

inductive BinaryOp
  | or | and | is | isNot | less | greater | lessEqual | greaterEqual | add | subtract | multiply
  | divide
  deriving DecidableEq, Repr, Inhabited

def UnaryOp.text : UnaryOp → String
  | not => "not"
  | negate => "-"

def BinaryOp.text : BinaryOp → String
  | or => "or"
  | and => "and"
  | is => "is"
  | isNot => "is not"
  | less => "<"
  | greater => ">"
  | lessEqual => "<="
  | greaterEqual => ">="
  | add => "+"
  | subtract => "-"
  | multiply => "*"
  | divide => "/"

/-- The text of an expression and the type found for it. -/
structure ExprNote where
  span : Span
  ty : Option Ty
  deriving Repr, Inhabited

/-- The text of a call and what was found about it. The type is that of its value. -/
structure CallNote where
  span : Span
  ty : Option Ty
  target : Option CallTarget
  purity : Option Purity
  deriving Repr, Inhabited

inductive Expr
  | literal (value : Literal) (note : ExprNote)
  | list (elements : List Expr) (note : ExprNote)
  | variable (name : String) (note : ExprNote)
  | unary (op : UnaryOp) (operand : Expr) (note : ExprNote)
  | binary (op : BinaryOp) (left right : Expr) (note : ExprNote)
  | call (callee : Name) (args : List Expr) (note : CallNote)
  | field (base : Expr) (name : Name) (note : ExprNote)
  deriving Repr, Inhabited

namespace Expr

def span : Expr → Span
  | .literal _ note | .list _ note | .variable _ note | .unary _ _ note | .binary _ _ _ note
  | .field _ _ note => note.span
  | .call _ _ note => note.span

def ty? : Expr → Option Ty
  | .literal _ note | .list _ note | .variable _ note | .unary _ _ note | .binary _ _ _ note
  | .field _ _ note => note.ty
  | .call _ _ note => note.ty

def stringLiteral? : Expr → Option String
  | literal (.string s) _ => some s
  | _ => none

end Expr

/-! ### Statements -/

inductive Stmt
  | bind (name : Name) (init : Expr) (span : Span)
  | branch (condition : Expr) (thenBlock : List Stmt) (otherwise : Option (List Stmt)) (span : Span)
  | forEach (item : Name) (iterable : Expr) (body : List Stmt) (span : Span)
  | call (callee : Name) (args : List Expr) (note : CallNote) (span : Span)
  | return (value : Option Expr) (span : Span)
  | expression (value : Expr) (span : Span)
  deriving Repr, Inhabited

def Stmt.span : Stmt → Span
  | .bind _ _ span | .branch _ _ _ span | .forEach _ _ _ span | .call _ _ _ span | .return _ span
  | .expression _ span => span

/-! ### Declarations -/

inductive TypeRef
  | named (name : String) (span : Span)
  | list (element : TypeRef) (span : Span)
  deriving DecidableEq, Repr, Inhabited

namespace TypeRef

def span : TypeRef → Span
  | named _ span | list _ span => span

def head : TypeRef → String
  | named name _ => name
  | list .. => "List"

def text : TypeRef → String
  | named name _ => name
  | list element _ => "List of " ++ element.text

end TypeRef

/-- A parameter of a function or a field of a record: a name and the type declared for it. -/
structure Typed where
  name : String
  ty : TypeRef
  span : Span
  deriving DecidableEq, Repr, Inhabited

structure FunctionDecl where
  name : Name
  parameters : List Typed
  returns : Option TypeRef
  purity : Purity
  body : List Stmt
  /-- The text of the closer, unless it is missing. -/
  closer : Option Span
  span : Span
  /-- The label that the function was found to have. -/
  resolved : Option Purity
  deriving Repr, Inhabited

/-- What stands in place of a name that could not be read. -/
def unreadableName : String := "<error>"

inductive TypeBody
  | reference (ty : TypeRef)
  | literals (values : List String)
  deriving DecidableEq, Repr, Inhabited

structure TypeDecl where
  name : String
  body : TypeBody
  span : Span
  deriving DecidableEq, Repr, Inhabited

structure RecordDecl where
  name : String
  fields : List Typed
  span : Span
  deriving DecidableEq, Repr, Inhabited

inductive Decl
  | function (f : FunctionDecl)
  | type (t : TypeDecl)
  | record (r : RecordDecl)
  deriving Repr, Inhabited

namespace Decl

def name : Decl → String
  | function f => f.name.text
  | type t => t.name
  | record r => r.name

def span : Decl → Span
  | function f => f.span
  | type t => t.span
  | record r => r.span

/-- Where messages about the name of a declaration point. -/
def nameStart : Decl → Position
  | function f => f.name.span.start
  | type t => t.span.start
  | record r => r.span.start

end Decl

structure Program where
  declarations : List Decl
  span : Span
  deriving Repr, Inhabited

namespace Program

def functions (p : Program) : List FunctionDecl :=
  p.declarations.filterMap fun
    | .function f => some f
    | _ => none

def types (p : Program) : List TypeDecl :=
  p.declarations.filterMap fun
    | .type t => some t
    | _ => none

def records (p : Program) : List RecordDecl :=
  p.declarations.filterMap fun
    | .record r => some r
    | _ => none

end Program

end Prosaic
