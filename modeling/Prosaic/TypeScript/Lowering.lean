import Prosaic.Document.Value
import Prosaic.Fault
import Prosaic.Registry.Basic
import Prosaic.TypeScript.Name
import Prosaic.TypeScript.Tree

/-!
Checked programs as modules of the target language. Every kind of node has one rule. A tree that the
checks have not completed cannot be lowered; what is missing is a defect.
-/

namespace Prosaic.TypeScript

inductive Defect
  | unlabelled (function : String)
  | untyped (node : String) (at_ : Location)
  | unresolved (callee : String) (at_ : Location)
  | conversionArity (callee : String) (given : Nat)
  | listOfNothing
  | booleanAsNumber (b : Bool)
  | notFinite (x : Binary64)
  | notANumber (value : Document)
  deriving Repr

namespace Defect

def placeText (l : Location) : String := toString l.line ++ ":" ++ toString l.column

def message : Defect → String
  | unlabelled f => "Function '" ++ f ++ "' reached the emitter without a resolved purity"
  | untyped node l => node ++ " at " ++ placeText l ++ " reached the emitter without a type"
  | unresolved callee l =>
    "Call to '" ++ callee ++ "' at " ++ placeText l ++ " reached the emitter unresolved"
  | conversionArity callee n => "Conversion '" ++ callee ++ "' with " ++ toString n ++ " arguments"
  | listOfNothing => "'List' type without an element type"
  | booleanAsNumber b => "Boolean " ++ (Document.boolean b).shown ++ " emitted as a number"
  | notFinite x => "Non-finite number literal " ++ x.text
  | notANumber value => "Invalid number literal " ++ value.shown

def fault (d : Defect) : Fault := .ofMessage d.message

end Defect

/-! ### Types -/

def isExternal (r : Registry) : Ty → Bool
  | .domain name => ((r.domains.lookup name).map Ty.Domain.external).getD false
  | .record name => ((r.records.lookup name).map Ty.Record.external).getD false
  | _ => false

def typeExpr (r : Registry) : Ty → TypeExpr
  | .base b => .primitive b
  | .list t => .array (typeExpr r t)
  | t => .reference ⟨t.text, isExternal r t⟩

/-- What a name of a type stands for: a base type, a type of the registry, or else a declaration of
the program. -/
def typeOfName (r : Registry) (name : String) : TypeExpr :=
  match r.type? name with
  | some t => typeExpr r t
  | none => .reference ⟨name, false⟩

def lowerRef (r : Registry) : TypeRef → Except Defect TypeExpr
  | .list e _ => return .array (← lowerRef r e)
  | .named name _ => if name = "List" then .error .listOfNothing else .ok (typeOfName r name)

/-! ### Expressions -/

/-- The digits of a number. A whole one is written without a point. -/
def numberDigits : Number → Except Defect String
  | .integer n => .ok (toString n)
  | .real (.finite s m e) =>
    .ok (if Binary64.isWhole m e then toString (Binary64.scaled s (Binary64.wholePart m e) 0 0)
      else (Binary64.finite s m e).text)
  | .real x => .error (.notFinite x)

def valueDigits : Document → Except Defect String
  | .number n => numberDigits n
  | .boolean b => .error (.booleanAsNumber b)
  | d => .error (.notANumber d)

def lowerLiteral : Literal → Except Defect Term
  | .number n => return .number (← numberDigits n)
  | .string s => .ok (.string s)
  | .boolean b => .ok (.boolean b)

def nodeName : Expr → String
  | .literal .. => "Literal"
  | .list .. => "ListLiteral"
  | .variable .. => "VariableRef"
  | .unary .. => "UnaryOp"
  | .binary .. => "BinaryOp"
  | .call .. => "CallExpr"
  | .field .. => "FieldAccess"

/-- An expression other than a call needs a type. -/
def requireType (e : Expr) : Except Defect Unit :=
  match e.ty? with
  | some _ => .ok ()
  | none => .error (.untyped (nodeName e) e.span.start.location)

def isImported : CallTarget → Bool
  | .operation | .helper => true
  | .function | .conversion => false

def requireResolved (callee : Name) (note : CallNote) : Except Defect (CallTarget × Purity) :=
  match note.target, note.purity with
  | some target, some purity => .ok (target, purity)
  | _, _ => .error (.unresolved callee.text note.span.start.location)

/-- A conversion takes one value. -/
def requireArity (callee : Name) (target : CallTarget) (given : Nat) : Except Defect Unit :=
  if target = .conversion && given ≠ 1 then .error (.conversionArity callee.text given) else .ok ()

/-- A call of lowered arguments. A conversion becomes a cast; an effectful call is awaited. -/
def callTerm (r : Registry) (callee : Name) (target : CallTarget) (purity : Purity)
    (args : List Term) : Term :=
  match target, args with
  | .conversion, value :: _ => .cast value (typeOfName r callee.text)
  | _, _ => .call ⟨callee.text, isImported target⟩ (purity = .effectful) args

mutual

def lowerExpr (r : Registry) (l : Locals) : Expr → Except Defect Term
  | .literal v note => do
    requireType (.literal v note)
    lowerLiteral v
  | .list es note => do
    requireType (.list es note)
    return .array (← lowerExprs r l es)
  | .variable x note => do
    requireType (.variable x note)
    return .variable (l.resolve x)
  | .unary op e note => do
    requireType (.unary op e note)
    return .unary op (← lowerExpr r l e)
  | .binary op a b note => do
    requireType (.binary op a b note)
    let a ← lowerExpr r l a
    return .binary op a (← lowerExpr r l b)
  | .call callee args note => do
    let (target, purity) ← requireResolved callee note
    requireArity callee target args.length
    return callTerm r callee target purity (← lowerExprs r l args)
  | .field e name note => do
    requireType (.field e name note)
    return .member (← lowerExpr r l e) name.text

def lowerExprs (r : Registry) (l : Locals) : List Expr → Except Defect (List Term)
  | [] => return []
  | e :: es => do
    let e ← lowerExpr r l e
    return e :: (← lowerExprs r l es)

end

/-! ### Statements -/

mutual

def lowerStmt (r : Registry) (l : Locals) : Stmt → Except Defect (Command × Locals)
  | .bind name e _ => do
    let e ← lowerExpr r l e
    let (x, l) := l.declare name.text
    return (.const x e, l)
  | .branch c t none _ => do
    let c ← lowerExpr r l c
    let (t, l) ← lowerStmts r l.enter t
    return (.branch c t none, l.leave)
  | .branch c t (some o) _ => do
    let c ← lowerExpr r l c
    let (t, l) ← lowerStmts r l.enter t
    let (o, l) ← lowerStmts r l.leave.enter o
    return (.branch c t (some o), l.leave)
  | .forEach item e body _ => do
    let e ← lowerExpr r l e
    let (x, l) := l.enter.declare item.text
    let (body, l) ← lowerStmts r l body
    return (.forOf x e body, l.leave)
  | .call callee args note _ => do
    let (target, purity) ← requireResolved callee note
    requireArity callee target args.length
    return (.expression (callTerm r callee target purity (← lowerExprs r l args)), l)
  | .return none _ => return (.return none, l)
  | .return (some e) _ => return (.return (some (← lowerExpr r l e)), l)
  | .expression e _ => return (.expression (← lowerExpr r l e), l)

def lowerStmts (r : Registry) (l : Locals) : List Stmt → Except Defect (List Command × Locals)
  | [] => return ([], l)
  | s :: ss => do
    let (c, l) ← lowerStmt r l s
    let (cs, l) ← lowerStmts r l ss
    return (c :: cs, l)

end

/-! ### Declarations -/

def lowerField (r : Registry) (f : Typed) : Except Defect (String × TypeExpr) :=
  return (f.name, ← lowerRef r f.ty)

def lowerParameter (r : Registry) (p : Typed) : Except Defect (String × TypeExpr) :=
  return (identifier p.name, ← lowerRef r p.ty)

def lowerReturns (r : Registry) : Option TypeRef → Except Defect (Option TypeExpr)
  | some t => return some (← lowerRef r t)
  | none => return none

/-- A function. Its label decides whether it is asynchronous. -/
def lowerFunction (r : Registry) (moduleNames : List String) (f : FunctionDecl) :
    Except Defect Item :=
  match f.resolved with
  | none => .error (.unlabelled f.name.text)
  | some purity => do
    let parameters ← f.parameters.mapM (lowerParameter r)
    let returns ← lowerReturns r f.returns
    let (body, _) ← lowerStmts r (Locals.ofFunction moduleNames f).enter f.body
    return .function f.name.text (purity = .effectful) parameters returns body

def lowerDecl (r : Registry) (moduleNames : List String) : Decl → Except Defect Item
  | .type ⟨name, .literals values, _⟩ => return .type name (.literals values)
  | .type ⟨name, .reference t, _⟩ => return .type name (.synonym (← lowerRef r t))
  | .record d => return .interface d.name (← d.fields.mapM (lowerField r))
  | .function f => lowerFunction r moduleNames f

def moduleNames (p : Program) (r : Registry) : List String :=
  (p.functions.map (fun f => f.name.text) ++ r.operations.map Prod.fst
    ++ r.helpers.map Prod.fst).map identifier

def lower (p : Program) (r : Registry) : Except Defect Module :=
  return ⟨← p.declarations.mapM (lowerDecl r (moduleNames p r))⟩

end Prosaic.TypeScript
