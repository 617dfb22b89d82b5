import Prosaic.Grammar.Block

/-!
Reading statements. The statements that hold a block take the parser for it as a parameter; as with
expressions, a nested block follows a token of its own, so the number of tokens is fuel enough.
-/

namespace Prosaic.Parser

def atKeyword (word : Keyword) : Parser Bool := fun s => .done (s.current.isKeyword word) s

/-! ### Simple statements -/

/-- `"Let" name "be" expression "."` -/
def letStatement : Parser Stmt := do
  let start ← advance
  let name ← expectIdentifier "'Let' binding" "a variable name"
  let context := "'Let " ++ name.lexeme ++ "' binding"
  let _ ← expectKeyword .be context (some ("Write 'Let " ++ name.lexeme ++ " be <value>.'."))
  let init ← expression
  let _ ← expectTerminator context
  let span ← spanFrom start
  countNode start
  return .bind (nameOf name) init span

/-- `"Return" [ expression ] "."` -/
def returnStatement : Parser Stmt := do
  let start ← advance
  let t ← current
  let value ← if t.isTerminator then pure none else some <$> expression
  let _ ← expectTerminator "'Return' statement"
  let span ← spanFrom start
  countNode start
  return .return value span

/-- `"Call" name [ "with" arguments ] "."` -/
def callStatement : Parser Stmt := do
  let start ← current
  let (callee, args, note) ← call
  let _ ← expectTerminator ("'Call " ++ callee.text ++ "' statement")
  let span ← spanFrom start
  countNode start
  return .call callee args note span

/-- Two names in a row form no expression, so the first one is probably a misspelt word. -/
def rejectMisspelt : Parser PUnit := do
  let t ← current
  let next ← second
  match t.kind, next.kind with
  | .identifier _, .identifier _ =>
    let hint := (Keyword.suggest t.lexeme (Keyword.statementStarters.map Keyword.text)).map
      fun word => "Did you mean '" ++ word ++ "'? Keywords are case-sensitive."
    fail (problem ("Unknown statement starting with '" ++ t.lexeme ++ "'") t hint)
  | _, _ => pure ⟨⟩

/-- `expression "."` -/
def expressionStatement : Parser Stmt := do
  rejectMisspelt
  let start ← current
  let value ← expression
  let _ ← expectTerminator "statement"
  let span ← spanFrom start
  countNode start
  return .expression value span

/-! ### Statements with blocks -/

/-- `expression "then" ":"`. A failure behind the condition leaves the condition usable. -/
def ifHeader : Parser (Option Expr × Option Diagnostic) := do
  match ← attempt expression with
  | .error d => return (none, some d)
  | .ok condition =>
    let hint := some "Write 'If <condition> then:'."
    let rest ← attempt do
      let _ ← expectKeyword .then_ "'If' header" hint
      expectSign .colon "'If' header" hint
    match rest with
    | .error d => return (some condition, some d)
    | .ok _ => return (some condition, none)

/-- `"each" name "in" expression ":"`. A failure leaves what was read before it usable. -/
def forHeader : Parser (Option (Token × Option Expr) × Option Diagnostic) := do
  let hint := some "Write 'For each <item> in <list>:'."
  let item ← attempt do
    let _ ← expectKeyword .each "'For' header" hint
    expectIdentifier "'For each' header" "a loop variable name"
  match item with
  | .error d => return (none, some d)
  | .ok item =>
    let iterable ← attempt do
      let _ ← expectKeyword .in_ "'For each' header" hint
      expression
    match iterable with
    | .error d => return (some (item, none), some d)
    | .ok iterable =>
      match ← attempt (expectSign .colon "'For each' header"
          (some "A loop header ends with ':'.")) with
      | .error d => return (some (item, some iterable), some d)
      | .ok _ => return (some (item, some iterable), none)

inductive BlockStep
  | leave
  | stray (word : Token)
  | statement

/-- A block ends at the end of the text, at a declaration, at `Otherwise` inside an `If`, and at
`End`, unless that closes a construct that is not open. -/
def blockStep : Parser BlockStep := do
  let t ← current
  let word ← second
  let blocks ← openBlocks
  match t.kind with
  | .eof | .keyword .define => return .leave
  | .keyword .otherwise =>
    return if blocks.any fun b => b.kind = .if_ then .leave else .statement
  | .keyword .end_ =>
    match closes? word with
    | some kind => return if blocks.any fun b => b.kind = kind then .leave else .stray word
    | none => return .leave
  | _ => return .statement

section

variable {m : Type → Type} [Monad m] [BlockReader m]

open BlockReader (lift opening within closing)

/-- Further branches of an `If` that already has one: each is reported, and its statements count as
part of the first. -/
def repeatedOtherwise (block : m (List Stmt)) (ifLine otherwiseLine : Nat) :
    Nat → m (List Stmt)
  | 0 => pure []
  | fuel + 1 => do
    if ← atKeyword .otherwise then
      report (problem "Second 'Otherwise' in the same 'If'" (← current)
        (some ("The 'If' opened at line " ++ toString ifLine ++
          " already has an 'Otherwise' at line "
          ++ toString otherwiseLine ++ "; nest another 'If' inside it instead.")))
      let _ ← advance
      let _ ← acceptSign .colon
      let statements ← block
      let more ← repeatedOtherwise block ifLine otherwiseLine fuel
      return statements ++ more
    else return []

/-- `[ "Otherwise" ":" block ]` -/
def otherwiseBranch (block : m (List Stmt)) (ifLine : Nat) :
    m (Option (List Stmt)) := do
  if ← atKeyword .otherwise then
    let start ← advance
    unless ← acceptSign .colon do
      report (expectation "Malformed 'Otherwise' branch" ["':'"] (← current)
        (some "Write 'Otherwise:' before the else-block."))
    let statements ← block
    let fuel ← remaining
    let more ← repeatedOtherwise block ifLine start.span.start.line fuel
    return some (statements ++ more)
  else return none

/-- `"If" expression "then" ":" block [ "Otherwise" ":" block ] "End" "if" "."` -/
def ifStatement (block : m (List Stmt)) : m (Option Stmt) := do
  let start ← advance
  let headerStart ← remaining
  let (condition, failure) ← ifHeader
  recoverHeader headerStart failure
  let context : Block := ⟨.if_, "If", start.span.start.line⟩
  opening context start
  let thenBlock ← within context block
  let otherwise ← otherwiseBranch (within context block) start.span.start.line
  let _ ← closing context
  match condition with
  | none => return none
  | some condition =>
    let span ← spanFrom start
    countNode start
    return some (.branch condition thenBlock otherwise span)

/-- `"For" "each" name "in" expression ":" block "End" "for" "."` -/
def forStatement (block : m (List Stmt)) : m (Option Stmt) := do
  let start ← advance
  let headerStart ← remaining
  let (header, failure) ← forHeader
  recoverHeader headerStart failure
  let context : Block := ⟨.for_, "For each", start.span.start.line⟩
  opening context start
  let body ← within context block
  let _ ← closing context
  match header with
  | some (item, some iterable) =>
    let span ← spanFrom start
    countNode start
    return some (.forEach (nameOf item) iterable body span)
  | _ => return none

/-- Reads one statement. One whose header could not be read yields none. -/
def statement (block : m (List Stmt)) : m (Option Stmt) := do
  let t ← current
  match t.kind with
  | .keyword .let_ => some <$> lift letStatement
  | .keyword .if_ => ifStatement block
  | .keyword .for_ => forStatement block
  | .keyword .call => some <$> lift callStatement
  | .keyword .return_ => some <$> lift returnStatement
  | .keyword .otherwise =>
    fail (problem "'Otherwise' without a matching 'If'" t
      (some "'Otherwise:' may only follow the then-block of an 'If'."))
  | _ => some <$> lift expressionStatement

def recoveringStatement (block : m (List Stmt)) : m (Option Stmt) := do
  let start ← remaining
  match ← BlockReader.attempt (statement block) with
  | .ok s => return s
  | .error d =>
    report d
    let _ ← synchronize start false
    return none

/-! ### Blocks -/

def statements (inner : m (List Stmt)) : Nat → m (List Stmt)
  | 0 => pure []
  | fuel + 1 => do
    let t ← current
    match ← blockStep with
    | .leave => return []
    | .stray word =>
      skipStrayCloser t word
      statements inner fuel
    | .statement =>
      checkTime t
      let s ← recoveringStatement inner
      let rest ← statements inner fuel
      return s.toList ++ rest

/-- A block of at most so many tokens. Without any left it is empty. -/
def blockUpTo : Nat → m (List Stmt)
  | 0 => pure []
  | depth + 1 => do
    let fuel ← remaining
    statements (blockUpTo depth) fuel

def block : m (List Stmt) := do
  let depth ← remaining
  blockUpTo depth

end

end Prosaic.Parser
