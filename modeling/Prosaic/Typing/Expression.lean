import Prosaic.Keyword
import Prosaic.Text.Quoted
import Prosaic.Typing.Environment

/-!
The types of expressions. Checking an expression yields the expression with the types written into
it, its own type, and what was found wrong. Where a certain type is expected, the expectation helps
an empty list to its type and reaches the elements of a list literal.
-/

namespace Prosaic

structure Typing where
  expr : Expr
  ty : Ty
  found : List Diagnostic
  deriving Repr, Inhabited

namespace TypeEnv

/-! ### Compatibility and hints -/

/-- A value may stand where its own type is expected, and a string literal where a domain type
allows it. -/
def assignable (env : TypeEnv) (e : Expr) (actual expected : Ty) : Bool :=
  actual.same expected ||
    (match e.stringLiteral?, env.domain? expected with
      | some value, some d => d.allows value
      | _, _ => false)

def mismatch (message : String) (start : Position) (hint : Option String) : Diagnostic :=
  typeFinding Diagnostic.typeMismatch message start hint

def allowedHint (t : Ty) (values : List String) : String :=
  "'" ++ t.text ++ "' allows only: " ++ ", ".intercalate (values.map Text.literal) ++ "."

/-- The values of a domain type that is a set of literals, if the expression is a literal. -/
def literalChoice? (env : TypeEnv) (e : Expr) (t : Ty) : Option (List String) :=
  match e.stringLiteral?, env.domain? t with
  | some _, some d => if d.values.isEmpty then none else some d.values
  | _, _ => none

def converters (env : TypeEnv) (actual expected : Ty) : List String :=
  let converts (s : Signature) : Bool :=
    s.parameters.map Prod.snd = [actual] && s.returns = some expected
  (env.functions.filter fun f => converts f.2.signature).map Prod.fst
    ++ (env.registry.helpers.filter fun h => converts h.2).map Prod.fst

def least? : List String → Option String
  | [] => none
  | s :: ss => some (ss.foldl (fun a b => if b < a then b else a) s)

def conversionHint (env : TypeEnv) (e : Expr) (actual expected : Ty) : Option String :=
  if actual.isError || expected.isError then none
  else
    match env.literalChoice? e expected with
    | some values => some (allowedHint expected values)
    | none =>
      if env.underlying? expected = some actual then
        some ("Convert explicitly with '" ++ expected.text ++ " of <value>'.")
      else
        match expected, decide (env.underlying? actual = some expected) with
        | .base b, true => some ("Convert explicitly with '" ++ b.text ++ " of <value>'.")
        | _, _ =>
          (least? (env.converters actual expected)).map fun name =>
            "Use '" ++ name ++ " of <value>' to turn a " ++ actual.text ++ " into a "
              ++ expected.text ++ "."

def comparisonHint (env : TypeEnv) (left right : Expr) (leftTy rightTy : Ty) : Option String :=
  match env.literalChoice? right leftTy with
  | some values => some (allowedHint leftTy values)
  | none =>
    match env.literalChoice? left rightTy with
    | some values => some (allowedHint rightTy values)
    | none => env.conversionHint right rightTy leftTy

/-! ### Names -/

def arity? (env : TypeEnv) (name : String) : Option Nat :=
  match env.functions.lookup name with
  | some f => some f.signature.arity
  | none => (env.registry.callable? name).map fun c => c.1.arity

def variableType (env : TypeEnv) (scope : Scope) (name : String) (start : Position) :
    Ty × List Diagnostic :=
  match scope.lookup name with
  | some b => (b.ty, [])
  | none =>
    let hint :=
      if env.arity? name = some 0 then
        "'" ++ name ++ "' is a function; call it with 'Call " ++ name ++ "'."
      else
        match Text.suggestName name scope.visible with
        | some s => "Did you mean '" ++ s ++ "'?"
        | none => "Bind it first with 'Let'."
    (.error, [typeFinding Diagnostic.unresolvedName ("Unknown name '" ++ name ++ "'") start
      (some hint)])

def fieldType (env : TypeEnv) (base : Ty) (name : Name) : Ty × List Diagnostic :=
  if base.isError then (.error, [])
  else
    let start := name.span.start
    match env.record? base with
    | none =>
      (.error,
        [mismatch ("Cannot read field '" ++ name.text ++ "' from a value of type " ++ base.text)
        start (some "Field access needs a record value.")])
    | some r =>
      match r.field? name.text with
      | some t => (t, [])
      | none =>
        let names := r.fields.map Prod.fst
        let hint := match Text.suggestName name.text names with
          | some s => "Did you mean '" ++ s ++ "'?"
          | none =>
            let listed := if names.isEmpty then "none"
              else ", ".intercalate (names.mergeSort fun a b => a ≤ b)
            "Fields of '" ++ base.text ++ "': " ++ listed ++ "."
        (.error, [typeFinding Diagnostic.unknownField
          ("Record '" ++ base.text ++ "' has no field '" ++ name.text ++ "'") start (some hint)])

/-! ### Operators -/

def booleanFindings (what : String) (t : Typing) : List Diagnostic :=
  if t.ty.same .boolean then []
  else
    [mismatch ("The " ++ what ++ " must be Boolean, but has type " ++ t.ty.text) t.expr.span.start
      (some "Compare values with 'is', 'is not', '<' or '>' to produce a Boolean.")]

/-- The type of an infix operation other than `and` and `or`, from its operands. -/
def binaryType (env : TypeEnv) (op : BinaryOp) (left right : Typing) (start : Position) :
    Ty × List Diagnostic :=
  let both (t : Ty) : Bool := left.ty.same t && right.ty.same t
  let types := left.ty.text ++ " and " ++ right.ty.text
  let hint := env.conversionHint right.expr right.ty left.ty
  match op with
  | .and | .or => (.boolean, [])
  | .is | .isNot =>
    if env.assignable right.expr right.ty left.ty || env.assignable left.expr left.ty right.ty then
      (.boolean, [])
    else
      (.boolean, [mismatch ("Cannot compare " ++ left.ty.text ++ " with " ++ right.ty.text
        ++ " using '" ++ op.text ++ "'") start
        (env.comparisonHint left.expr right.expr left.ty right.ty)])
  | .less | .greater | .lessEqual | .greaterEqual =>
    if both .number || both .dateTime then (.boolean, [])
    else
      (.boolean,
        [mismatch ("'" ++ op.text ++ "' compares two Numbers or two DateTimes, not " ++ types)
        start hint])
  | .add =>
    if both .number then (if left.ty.containsError then right.ty else .number, [])
    else if both .string then (if left.ty.containsError then right.ty else .string, [])
    else (.error,
      [mismatch ("'+' adds two Numbers or joins two Strings, not " ++ types) start hint])
  | .subtract | .multiply | .divide =>
    if both .number then (.number, [])
    else
      (.number, [mismatch ("'" ++ op.text ++ "' needs two Numbers, not " ++ types) start none])

/-! ### Lists -/

/-- The finding that an empty list has no type, unless a list is expected. -/
def emptyListType (expected : Option Ty) (start : Position) : Ty × List Diagnostic :=
  match expected with
  | some (.list t) => (.list t, [])
  | some .error => (.error, [])
  | _ =>
    (.error, [mismatch "Cannot determine the element type of an empty list" start
      (some ("Use '[]' only where a 'List of <Type>' is expected, such as an argument or a "
        ++ "'Return'."))])

def elementFindings (env : TypeEnv) (elementTy : Ty) : List Typing → List Diagnostic
  | [] => []
  | t :: ts =>
    let own := if env.assignable t.expr t.ty elementTy then []
      else
        [mismatch ("List elements must share one type: expected " ++ elementTy.text ++ ", found "
          ++ t.ty.text) t.expr.span.start (env.conversionHint t.expr t.ty elementTy)]
    t.found ++ own ++ env.elementFindings elementTy ts

/-- The type of a list from its elements. The first one decides, unless it may stand for the type
that is expected. -/
def listType (env : TypeEnv) (expected : Option Ty) (elements : List Typing) (start : Position) :
    Ty × List Diagnostic :=
  match elements with
  | [] => emptyListType expected start
  | first :: rest =>
    let elementTy := match expected with
      | some (.list t) => if env.assignable first.expr first.ty t then t else first.ty
      | _ => first.ty
    (.list elementTy, first.found ++ env.elementFindings elementTy rest)

def elementExpectation : Option Ty → Option Ty
  | some (.list t) => some t
  | _ => none

/-! ### Calls -/

inductive Callee
  /-- Back from a domain type to a base type. -/
  | base (b : Base)
  | known (target : CallTarget) (parameters : List (String × Ty)) (returns : Option Ty)
  | unknown

/-- Base types come first, then functions of the program, helpers, operations, and last the
conversions to domain types. -/
def callee (env : TypeEnv) (name : String) : Callee :=
  match Base.ofText? name with
  | some b => .base b
  | none =>
    match env.functions.lookup name with
    | some f => .known .function f.signature.parameters f.signature.returns
    | none =>
      match env.registry.helpers.lookup name with
      | some s => .known .helper s.parameters s.returns
      | none =>
        match env.registry.operations.lookup name with
        | some s => .known .operation s.parameters s.returns
        | none =>
          match (env.type? name).bind fun t => (env.underlying? t).map fun u => (t, u) with
          | some (t, u) => .known .conversion [("value", u)] (some t)
          | none => .unknown

/-- The types expected of the arguments of a call. A wrong number of them says nothing about any. -/
def Callee.expectations (c : Callee) (count : Nat) : List (Option Ty) :=
  match c with
  | .known _ parameters _ => if count = parameters.length then parameters.map (some ·.2) else []
  | _ => []

def signatureText (name : String) (parameters : List (String × Ty)) : String :=
  if parameters.isEmpty then name
  else
    name ++ " taking "
      ++ ", ".intercalate (parameters.map fun (p : String × Ty) => p.1 ++ " as " ++ p.2.text)

def argumentFindings (env : TypeEnv) (target : String) :
    List Typing → List (String × Ty) → List Diagnostic
  | t :: ts, (name, expected) :: ps =>
    let own := if env.assignable t.expr t.ty expected then []
      else
        [mismatch ("Argument '" ++ name ++ "' of " ++ target ++ " expects " ++ expected.text
          ++ ", but was given " ++ t.ty.text) t.expr.span.start
          (env.conversionHint t.expr t.ty expected)]
    t.found ++ own ++ env.argumentFindings target ts ps
  | _, _ => []

def baseConversionFindings (env : TypeEnv) (b : Base) (start : Position) (args : List Typing) :
    List Diagnostic :=
  match args with
  | [arg] =>
    let own :=
      if arg.ty.isError || env.underlying? arg.ty = some (.base b) then []
      else
        [mismatch ("Conversion '" ++ b.text ++ " of' needs a domain value whose underlying type is "
          ++ b.text ++ ", but was given " ++ arg.ty.text) arg.expr.span.start
          (if arg.ty = .base b then
            some ("The value is already a " ++ b.text ++ "; remove the conversion.")
          else none)]
    arg.found ++ own
  | args =>
    typeFinding Diagnostic.arityMismatch
      ("Conversion '" ++ b.text ++ " of' takes exactly 1 argument but was given "
        ++ toString args.length) start (some ("Write '" ++ b.text ++ " of <value>'."))
      :: args.flatMap Typing.found

def unknownCallee (env : TypeEnv) (scope : Scope) (name : Name) : Diagnostic :=
  let start := name.span.start
  match env.type? name.text with
  | some _ =>
    mismatch ("Type '" ++ name.text ++ "' has no underlying type to convert from") start
      (some "Only domain types with an underlying base type support '<Type> of <value>'.")
  | none =>
    let candidates := env.functions.map Prod.fst ++ env.registry.operations.map Prod.fst
      ++ env.registry.helpers.map Prod.fst
      ++ (env.types.filter fun t => (env.domain? t.2).isSome).map Prod.fst
    let hint := match Text.suggestName name.text candidates with
      | some s => "Did you mean '" ++ s ++ "'?"
      | none =>
        if (scope.lookup name.text).isSome then
          "'" ++ name.text ++ "' is a variable, not a function."
        else "Declare it with 'Define function' or add it to the domain registry."
    typeFinding Diagnostic.unresolvedName ("Unknown function '" ++ name.text ++ "'")
      start (some hint)

structure CallTyping where
  target : Option CallTarget
  returns : Option Ty
  found : List Diagnostic

/-- The check of a call whose arguments are checked. Only as a statement may it return nothing. -/
def callType (env : TypeEnv) (scope : Scope) (name : Name) (c : Callee) (args : List Typing)
    (asValue : Bool) : CallTyping :=
  let start := name.span.start
  match c with
  | .base b => ⟨some .conversion, some (.base b), env.baseConversionFindings b start args⟩
  | .unknown =>
    ⟨none, some .error, args.flatMap Typing.found ++ [env.unknownCallee scope name]⟩
  | .known target parameters returns =>
    let found :=
      if args.length = parameters.length then
        let targetText := match target with
          | .conversion => "conversion '" ++ name.text ++ " of'"
          | _ => "'" ++ name.text ++ "'"
        env.argumentFindings targetText args parameters
      else
        typeFinding Diagnostic.arityMismatch
          ("'" ++ name.text ++ "' expects " ++ toString parameters.length
            ++ " argument(s) but was given " ++ toString args.length) start
          (some ("Signature: " ++ signatureText name.text parameters ++ "."))
          :: args.flatMap Typing.found
    if asValue && returns.isNone then
      ⟨some target, some .error, found ++
        [mismatch ("'" ++ name.text ++ "' returns nothing and cannot be used as a value") start
          (some ("Use it as a statement: 'Call " ++ name.text
            ++ (if parameters.isEmpty then "" else " with ...") ++ ".'."))]⟩
    else ⟨some target, returns, found⟩

/-- What a check adds to the note of a call. A target that was found before stays if none is found
now. -/
def noteTarget (note : CallNote) (target : Option CallTarget) : CallNote :=
  { note with target := target.or note.target }

/-! ### Expressions -/

def literalType : Literal → Ty
  | .number _ => .number
  | .string _ => .string
  | .boolean _ => .boolean

mutual

def infer (env : TypeEnv) (scope : Scope) (expected : Option Ty) : Expr → Typing
  | .literal value note =>
    let t := literalType value
    ⟨.literal value { note with ty := some t }, t, []⟩
  | .list elements note =>
    let elements := env.inferAll scope
      (elements.map fun _ => elementExpectation expected) elements
    let (t, found) := env.listType expected elements note.span.start
    ⟨.list (elements.map Typing.expr) { note with ty := some t }, t, found⟩
  | .variable name note =>
    let (t, found) := env.variableType scope name note.span.start
    ⟨.variable name { note with ty := some t }, t, found⟩
  | .unary .not operand note =>
    let operand := env.infer scope (some .boolean) operand
    ⟨.unary .not operand.expr { note with ty := some .boolean }, .boolean,
      operand.found ++ booleanFindings "operand of 'not'" operand⟩
  | .unary .negate operand note =>
    let operand := env.infer scope none operand
    let found := if operand.ty.same .number then []
      else
        [mismatch ("Unary '-' needs a Number, but the operand has type " ++ operand.ty.text)
          operand.expr.span.start none]
    ⟨.unary .negate operand.expr { note with ty := some .number }, .number, operand.found ++ found⟩
  | .binary op left right note =>
    match op with
    | .and | .or =>
      let left := env.infer scope (some .boolean) left
      let right := env.infer scope (some .boolean) right
      ⟨.binary op left.expr right.expr { note with ty := some .boolean }, .boolean,
        left.found ++ booleanFindings ("left operand of '" ++ op.text ++ "'") left
          ++ right.found ++ booleanFindings ("right operand of '" ++ op.text ++ "'") right⟩
    | _ =>
      let left := env.infer scope none left
      let right := env.infer scope (some left.ty) right
      let (t, found) := env.binaryType op left right note.span.start
      ⟨.binary op left.expr right.expr { note with ty := some t }, t,
        left.found ++ right.found ++ found⟩
  | .call name args note =>
    let c := env.callee name.text
    let args := env.inferAll scope (c.expectations args.length) args
    let call := env.callType scope name c args true
    let t := call.returns.getD .error
    ⟨.call name (args.map Typing.expr) { noteTarget note call.target with ty := some t }, t,
      call.found⟩
  | .field base name note =>
    let base := env.infer scope none base
    let (t, found) := env.fieldType base.ty name
    ⟨.field base.expr name { note with ty := some t }, t, base.found ++ found⟩

def inferAll (env : TypeEnv) (scope : Scope) : List (Option Ty) → List Expr → List Typing
  | _, [] => []
  | expected, e :: es =>
    env.infer scope (expected.headD none) e :: env.inferAll scope expected.tail es

end

end TypeEnv

end Prosaic
