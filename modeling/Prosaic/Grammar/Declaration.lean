import Prosaic.Grammar.Statement
import Prosaic.Text.Quoted

/-!
Reading declarations and whole programs. A declaration that cannot be read is reported and the
reading goes on at the next `Define`, so one broken declaration does not swallow the next.
-/

namespace Prosaic

namespace Parser

/-! ### Types -/

/-- `"List" "of" type | name` -/
def typeRefWith (inner : Parser TypeRef) : Parser TypeRef := do
  let t ← expectIdentifier "type" "a type name"
  if t.lexeme = "List" then
    if ← acceptKeyword .of then
      let element ← nested t inner
      let span ← spanFrom t
      return .list element span
    else return .named t.lexeme t.span
  else return .named t.lexeme t.span

/-- A type of at most so many tokens. Without any left there is none to find. -/
def typeRefUpTo : Nat → Parser TypeRef
  | 0 => do
    let t ← expectIdentifier "type" "a type name"
    return .named t.lexeme t.span
  | fuel + 1 => typeRefWith (typeRefUpTo fuel)

def typeRef : Parser TypeRef := do
  let fuel ← remaining
  typeRefUpTo fuel

/-! ### Functions -/

/-- `name "as" type` -/
def parameter : Parser Typed := do
  let name ← expectIdentifier "parameter list" "a parameter name"
  let _ ← expectKeyword .as_ ("parameter '" ++ name.lexeme ++ "'")
    (some ("Declare parameters as '" ++ name.lexeme ++ " as <Type>'."))
  let ty ← typeRef
  let span ← spanFrom name
  return ⟨name.lexeme, ty, span⟩

/-- `parameter { "," parameter }`, as far as it can be read. -/
def parameters : Nat → Parser (List Typed × Option Diagnostic)
  | 0 => return ([], none)
  | fuel + 1 => do
    match ← attempt parameter with
    | .error d => return ([], some d)
    | .ok p =>
      if ← acceptSign .comma then
        let (ps, failure) ← parameters fuel
        return (p :: ps, failure)
      else return ([p], none)

structure Header where
  name : String
  parameters : List Typed
  returns : Option TypeRef

/-- `[ "returning" type ]`; parameters do not come behind it. -/
def returnClause : Parser (Option TypeRef) := do
  if ← acceptKeyword .returning then some <$> typeRef else return none

def headerEnd (name : String) : Parser PUnit := do
  let t ← current
  if t.isKeyword .taking then
    fail (problem "Malformed function declaration" t
      (some "Parameters come before the return type: 'taking x as T returning R:'."))
  else
    let _ ← expectSign .colon ("header of function '" ++ name ++ "'")
      (some "A function header ends with ':' before its body.")

/-- `name [ "taking" parameters ] [ "returning" type ] ":"`, as far as it can be read. -/
def functionHeader : Parser (Header × Option Diagnostic) := do
  match ← attempt (expectIdentifier "function declaration" "a function name") with
  | .error d => return (⟨unreadableName, [], none⟩, some d)
  | .ok name =>
    let fuel ← remaining
    let (ps, failure) ←
      if ← acceptKeyword .taking then parameters (fuel + 1) else pure ([], none)
    match failure with
    | some d => return (⟨name.lexeme, ps, none⟩, some d)
    | none =>
      match ← attempt returnClause with
      | .error d => return (⟨name.lexeme, ps, none⟩, some d)
      | .ok returns =>
        match ← attempt (headerEnd name.lexeme) with
        | .error d => return (⟨name.lexeme, ps, returns⟩, some d)
        | .ok _ => return (⟨name.lexeme, ps, returns⟩, none)

section

variable {m : Type → Type} [Monad m] [BlockReader m]

open BlockReader (opening within closing)

/-- Behind `"Define" [ "effectful" ]`: `"function"` and the rest of the function. -/
def functionDecl (define : Token) (purity : Purity) : m FunctionDecl := do
  let _ ← expectKeyword .function "function declaration" none
  let nameToken ← current
  let headerStart ← remaining
  let (header, failure) ← functionHeader
  recoverHeader headerStart failure
  let opens := match purity with
    | .effectful => "Define effectful function "
    | .pure => "Define function "
  let context : Block := ⟨.function, opens ++ header.name, define.span.start.line⟩
  opening context define
  let body ← within context block
  let closer ← closing context
  let span ← spanFrom define
  countNode define
  return ⟨⟨header.name, nameToken.span⟩, header.parameters, header.returns, purity, body, closer,
    span, none⟩

end

/-! ### Types and records -/

/-- Behind the first literal of a set: `{ "or" literal }`. -/
def literalsRest (name : String) : Nat → Parser (List String)
  | 0 => pure []
  | fuel + 1 => do
    if ← acceptKeyword .or then
      let t ← current
      match t.kind with
      | .string value =>
        let _ ← advance
        let values ← literalsRest name fuel
        return value :: values
      | _ =>
        fail (expectation ("Malformed type declaration '" ++ name ++ "'")
          ["a string literal"] t none)
    else return []

def repeated (values : List String) : List String :=
  ((values.filter fun v => 1 < values.count v).eraseDups).mergeSort fun a b => a ≤ b

/-- Behind `"Define"`: `"type" name "as" ( type | literal { "or" literal } ) "."` -/
def typeDecl (define : Token) : Parser TypeDecl := do
  let _ ← expectKeyword .type "type declaration" none
  let name ← expectIdentifier "type declaration" "a type name"
  let name := name.lexeme
  let context := "type declaration '" ++ name ++ "'"
  let _ ← expectKeyword .as_ context none
  let t ← current
  let body ← match t.kind with
    | .string value => do
      let _ ← advance
      let fuel ← remaining
      let values ← literalsRest name fuel
      let values := value :: values
      let twice := repeated values
      unless twice.isEmpty do
        report (problem ("Type '" ++ name ++ "' lists " ++ ", ".intercalate (twice.map Text.quoted)
            ++ " more than once") define
          (some "Each literal may appear only once in a type declaration."))
      pure (TypeBody.literals values)
    | _ => TypeBody.reference <$> typeRef
  let _ ← expectTerminator context
  let span ← spanFrom define
  countNode define
  return ⟨name, body, span⟩

/-- `name "as" type "."` -/
def recordField (record : String) : Parser Typed := do
  let field ← expectIdentifier ("record '" ++ record ++ "'") "a field name"
  let context := "field '" ++ field.lexeme ++ "'"
  let _ ← expectKeyword .as_ context none
  let ty ← typeRef
  let _ ← expectTerminator context
  let span ← spanFrom field
  return ⟨field.lexeme, ty, span⟩

/-- The fields of a record; one that cannot be read is reported and left out. -/
def recordFields (record : String) : Nat → Parser (List Typed)
  | 0 => pure []
  | fuel + 1 => do
    let t ← current
    match t.kind with
    | .eof | .keyword .end_ | .keyword .define => return []
    | _ =>
      let start ← remaining
      match ← attempt (recordField record) with
      | .ok f =>
        let fs ← recordFields record fuel
        return f :: fs
      | .error d =>
        report d
        let _ ← synchronize start false
        recordFields record fuel

def skipToDefine : Nat → Parser PUnit
  | 0 => pure ⟨⟩
  | fuel + 1 => do
    let t ← current
    if t.isEof || t.isKeyword .define then pure ⟨⟩
    else
      let _ ← advance
      skipToDefine fuel

def unexpectedAtTop (t : Token) : Diagnostic :=
  let general :=
    "Top-level code must be a declaration: 'Define function', 'Define type' or 'Define record'."
  let ofWord :=
    if Keyword.suggestAny t.lexeme = some Keyword.define.text then
      "Did you mean 'Define'? Keywords are case-sensitive."
    else if t.isKeyword .end_ then "This closer has no matching open construct; remove it."
    else general
  let hint := match t.kind with
    | .identifier _ | .keyword _ => ofWord
    | _ => general
  problem ("Unexpected " ++ t.describe ++ " at top level") t (some hint)

section

variable {m : Type → Type} [Monad m] [BlockReader m]

open BlockReader (lift opening closing)

/-- Behind `"Define"`: `"record" name ":" { field } "End" "record" "."` -/
def recordDecl (define : Token) : m RecordDecl := do
  let _ ← expectKeyword .record "record declaration" none
  let name ← expectIdentifier "record declaration" "a record name"
  let name := name.lexeme
  let _ ← expectSign .colon ("record declaration '" ++ name ++ "'") none
  let context : Block := ⟨.record, "Define record " ++ name, define.span.start.line⟩
  opening context define
  let fuel ← remaining
  let fields ← recordFields name fuel
  let _ ← closing context
  let span ← spanFrom define
  countNode define
  return ⟨name, fields, span⟩

/-! ### Declarations -/

def declaration : m Decl := do
  let define ← expectKeyword .define "declaration" none
  let effectful ← acceptKeyword .effectful
  let t ← current
  match t.kind with
  | .keyword .function =>
    Decl.function <$> functionDecl define (if effectful then .effectful else .pure)
  | kind =>
    if effectful then fail (expectation "Malformed effectful declaration" ["'function'"] t none)
    else
      match kind with
      | .keyword .type => Decl.type <$> lift (typeDecl define)
      | .keyword .record => Decl.record <$> recordDecl define
      | _ =>
        fail (expectation "Malformed declaration"
          ["'function'", "'effectful function'", "'type'", "'record'"] t none)

/-- Reads one declaration; a failure is reported and the rest of the declaration skipped. -/
def recoveringDeclaration : m (Option Decl) := do
  let start ← remaining
  match ← BlockReader.attempt declaration with
  | .ok d => return some d
  | .error d =>
    report d
    let _ ← synchronize start false
    skipToDefine (← remaining)
    return none

/-- At the top level a declaration stands, or what belongs to none. -/
def turn : m (Option Decl) := do
  let t ← current
  if t.isKeyword .define then recoveringDeclaration
  else
    report (unexpectedAtTop t)
    let _ ← advance
    skipToDefine (← remaining)
    return none

end

def topLevel : Parser (Option Decl) := turn

/-- Reads declarations to the end of the text, or until a limit is exceeded. -/
def declarations : Nat → State → List Decl × State
  | 0, s => ([], s)
  | fuel + 1, s =>
    if s.current.isEof then ([], s)
    else
      match topLevel s with
      | .done d s =>
        let (ds, s) := declarations fuel s
        (d.toList ++ ds, s)
      | .failed d s => declarations fuel { s with found := d :: s.found }
      | .stopped e s => ([], { s with found := e.diagnostic .parse :: s.found })

end Parser

/-! ### Programs -/

structure Reading where
  program : Program
  found : List Diagnostic
  budget : Budget
  deriving Repr

/-- Reads a program from tokens. Their last one has to mark the end of the text. -/
def Program.read (tokens : List Token) (budget : Budget) : Option Reading :=
  match tokens.find? Token.isEof with
  | none => none
  | some stop =>
    if tokens.getLast?.all Token.isEof then
      let start := Parser.State.start (tokens.takeWhile fun t => !t.isEof) stop budget
      let (declarations, s) := Parser.declarations start.left start
      let first := start.current.span
      some ⟨⟨declarations, ⟨first.start, s.last.getD first.stop⟩⟩, s.found.reverse, s.budget⟩
    else none

end Prosaic
