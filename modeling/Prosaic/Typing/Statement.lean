import Prosaic.Budget
import Prosaic.Typing.Declared
import Prosaic.Typing.Expression

/-!
Checking statements and whole programs. The time is checked before every statement; once it is over,
the statements to come keep what is known about them. A block definitely returns if one of its
statements does, and an `If` does if both of its branches do.
-/

namespace Prosaic

/-- The time of a check: what is left, and whether it was found to be over. -/
structure Timer where
  budget : Budget
  exceeded : Option Exceeded
  deriving Repr

def Timer.check (t : Timer) (start : Position) : Timer :=
  match t.exceeded with
  | some _ => t
  | none =>
    let (exceeded, budget) := t.budget.checkTime start.location
    ⟨budget, exceeded⟩

/-- A statement after its check: with the scope for what follows, whether it definitely returns,
and what was found wrong. -/
structure StmtTyping where
  stmt : Stmt
  scope : Scope
  returns : Bool
  found : List Diagnostic
  timer : Timer

structure BlockTyping where
  stmts : List Stmt
  returns : Bool
  found : List Diagnostic
  timer : Timer

namespace TypeEnv

/-- Binds a local name. It must not be the name of something that can be called, and must not be
bound in the same frame. -/
def bind (env : TypeEnv) (scope : Scope) (name : String) (t : Ty) (span : Span) :
    Scope × List Diagnostic :=
  let taken (place : String) : Diagnostic :=
    typeFinding Diagnostic.duplicateDeclaration
      ("'" ++ name ++ "' is already declared " ++ place ++ " as a function") span.start
      (some ("Local names cannot reuse a function name; choose a different name than '" ++ name
        ++ "'."))
  let clash := match env.functions.lookup name with
    | some f => some (taken ("at line " ++ toString f.line))
    | none => (env.registry.callable? name).map fun _ => taken "in the domain registry"
  let (existing, scope) := scope.bind ⟨name, if clash.isSome then .error else t, some span⟩
  let again := existing.map fun b =>
    let place := match b.span with
      | some s => " at line " ++ toString s.start.line
      | none => ""
    typeFinding Diagnostic.rebind ("'" ++ name ++ "' is already bound in this scope" ++ place)
      span.start
      (some ("Bindings are immutable; choose a new name instead of rebinding '" ++ name ++ "'."))
  (scope, clash.toList ++ again.toList)

/-- The function whose body is checked: its name and what it returns. -/
structure Enclosing where
  name : String
  returns : Option Ty

def checkReturn (env : TypeEnv) (fn : Enclosing) (scope : Scope)
    (value : Option Expr) (span : Span) :
    Option Expr × List Diagnostic :=
  match value, fn.returns with
  | none, none => (none, [])
  | none, some t =>
    (none, [mismatch ("'Return.' without a value in function '" ++ fn.name ++ "', which returns "
      ++ t.text) span.start (some "Write 'Return <value>.'.")])
  | some e, none =>
    let v := env.infer scope none e
    (some v.expr, v.found ++ [mismatch ("Function '" ++ fn.name
      ++ "' returns nothing, but this 'Return' has a value of type " ++ v.ty.text) v.expr.span.start
      (some ("Write 'Return.' or declare the function 'returning " ++ v.ty.text ++ "'."))])
  | some e, some t =>
    let v := env.infer scope (some t) e
    let own := if env.assignable v.expr v.ty t then []
      else
        [mismatch ("Function '" ++ fn.name ++ "' must return " ++ t.text ++ ", but this returns "
          ++ v.ty.text) v.expr.span.start (env.conversionHint v.expr v.ty t)]
    (some v.expr, v.found ++ own)

def itemType (item : String) (iterable : Typing) : Ty × List Diagnostic :=
  match iterable.ty with
  | .list t => (t, [])
  | .error => (.error, [])
  | t =>
    (.error, [mismatch ("'For each' expects a List of T, but '" ++ item
      ++ "' would iterate over a value of type " ++ t.text) iterable.expr.span.start
      (some "Iterate over a value whose type is 'List of <Type>'.")])

/-- Checks a call that stands as a statement. Its value, if any, is not used. -/
def checkCall (env : TypeEnv) (scope : Scope) (name : Name) (args : List Expr) (note : CallNote) :
    List Expr × CallNote × List Diagnostic :=
  let c := env.callee name.text
  let args := env.inferAll scope (c.expectations args.length) args
  let call := env.callType scope name c args false
  (args.map Typing.expr, noteTarget note call.target, call.found)

def checkUnused (env : TypeEnv) (scope : Scope) : Expr → Expr × List Diagnostic
  | .call name args note =>
    let (args, note, found) := env.checkCall scope name args note
    (.call name args note, found)
  | e =>
    let t := env.infer scope none e
    (t.expr, t.found)

mutual

def checkStmt (env : TypeEnv) (fn : Enclosing) (scope : Scope) (timer : Timer) : Stmt → StmtTyping
  | .bind name init span =>
    let v := env.infer scope none init
    let (scope, found) := env.bind scope name.text v.ty name.span
    ⟨.bind name v.expr span, scope, false, v.found ++ found, timer⟩
  | .branch condition thenBlock none span =>
    let c := env.infer scope (some .boolean) condition
    let t := env.checkBlock fn scope.child timer thenBlock
    ⟨.branch c.expr t.stmts none span, scope, false,
      c.found ++ booleanFindings "'If' condition" c ++ t.found, t.timer⟩
  | .branch condition thenBlock (some otherwise) span =>
    let c := env.infer scope (some .boolean) condition
    let t := env.checkBlock fn scope.child timer thenBlock
    let o := env.checkBlock fn scope.child t.timer otherwise
    ⟨.branch c.expr t.stmts (some o.stmts) span, scope, t.returns && o.returns,
      c.found ++ booleanFindings "'If' condition" c ++ t.found ++ o.found, o.timer⟩
  | .forEach item iterable body span =>
    let i := env.infer scope none iterable
    let (t, itemFound) := itemType item.text i
    let (inner, bindFound) := env.bind scope.child item.text t item.span
    let b := env.checkBlock fn inner timer body
    ⟨.forEach item i.expr b.stmts span, scope, false, i.found ++ itemFound ++ bindFound ++ b.found,
      b.timer⟩
  | .call name args note span =>
    let (args, note, found) := env.checkCall scope name args note
    ⟨.call name args note span, scope, false, found, timer⟩
  | .return value span =>
    let (value, found) := env.checkReturn fn scope value span
    ⟨.return value span, scope, true, found, timer⟩
  | .expression value span =>
    let (value, found) := env.checkUnused scope value
    ⟨.expression value span, scope, false, found, timer⟩

def checkBlock (env : TypeEnv) (fn : Enclosing) (scope : Scope) (timer : Timer) :
    List Stmt → BlockTyping
  | [] => ⟨[], false, [], timer⟩
  | s :: rest =>
    let timer := timer.check s.span.start
    match timer.exceeded with
    | some _ => ⟨s :: rest, false, [], timer⟩
    | none =>
      let s := env.checkStmt fn scope timer s
      let rest := env.checkBlock fn s.scope s.timer rest
      ⟨s.stmt :: rest.stmts, s.returns || rest.returns, s.found ++ rest.found, rest.timer⟩

end

/-! ### Functions -/

def bindParameters (env : TypeEnv) (scope : Scope) :
    List (Typed × Ty) → Scope × List Diagnostic
  | [] => (scope, [])
  | (p, t) :: rest =>
    let (scope, found) := env.bind scope p.name t p.span
    let (scope, more) := env.bindParameters scope rest
    (scope, found ++ more)

def checkFunction (env : TypeEnv) (timer : Timer) (f : FunctionDecl) (s : Signature) :
    FunctionDecl × List Diagnostic × Timer :=
  let (scope, found) := env.bindParameters [[]] (f.parameters.zip (s.parameters.map Prod.snd))
  let body := env.checkBlock ⟨f.name.text, s.returns⟩ scope timer f.body
  let missing := match s.returns with
    | none => []
    | some t =>
      if body.returns then []
      else
        [typeFinding Diagnostic.missingReturn
          ("Function '" ++ f.name.text ++ "' must return " ++ t.text
            ++ " but not every path ends in 'Return'") f.name.span.start
          (some ("Add 'Return <value>.' before 'End function.', or give every 'If' an "
            ++ "'Otherwise:' branch that returns."))]
  ({ f with body := body.stmts }, found ++ body.found ++ missing, body.timer)

def checkDecls (env : TypeEnv) : Timer → List Decl → List Signature →
    List Decl × List Diagnostic × Timer
  | timer, .function f :: ds, s :: ss =>
    let (f, found, timer) := env.checkFunction timer f s
    let (ds, more, timer) := env.checkDecls timer ds ss
    (.function f :: ds, found ++ more, timer)
  | timer, d :: ds, ss =>
    let (ds, found, timer) := env.checkDecls timer ds ss
    (d :: ds, found, timer)
  | timer, [], _ => ([], [], timer)

end TypeEnv

/-! ### Programs -/

/-- A program after a check that ran to its end or ran out of time. -/
structure Checked (α : Type) where
  program : Program
  budget : Budget
  result : Except Exceeded α

def Program.checkTypes (program : Program) (registry : Registry) (budget : Budget) :
    Checked (List Diagnostic) :=
  let declared := Declared.of registry program
  let (ds, found, timer) :=
    declared.env.checkDecls ⟨budget, none⟩ program.declarations declared.signatures
  ⟨{ program with declarations := ds }, timer.budget,
    match timer.exceeded with
    | some e => .error e
    | none => .ok (declared.found ++ found)⟩

end Prosaic
