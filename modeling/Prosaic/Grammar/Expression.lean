import Prosaic.Grammar.Parser
import Prosaic.Program.Tree

/-!
Reading expressions. The rungs of the precedence ladder, from `or` down to the primaries, take the
parser for a nested expression as a parameter; tying that knot costs one unit of fuel, and since
every nested expression follows a token of its own the number of tokens is fuel enough.

Every operator of a chain, every prefix and every field selection holds one level of nesting until
its chain is complete.
-/

namespace Prosaic.Parser

def nameOf (t : Token) : Name := ⟨t.lexeme, t.span⟩

/-! ### Operators -/

def orOp? (t : Token) : Option BinaryOp :=
  match t.kind with
  | .keyword .or => some .or
  | _ => none

def andOp? (t : Token) : Option BinaryOp :=
  match t.kind with
  | .keyword .and => some .and
  | _ => none

def orderOp? (t : Token) : Option BinaryOp :=
  match t.kind with
  | .sign .less => some .less
  | .sign .greater => some .greater
  | .sign .lessEqual => some .lessEqual
  | .sign .greaterEqual => some .greaterEqual
  | _ => none

def additiveOp? (t : Token) : Option BinaryOp :=
  match t.kind with
  | .sign .plus => some .add
  | .sign .minus => some .subtract
  | _ => none

def multiplicativeOp? (t : Token) : Option BinaryOp :=
  match t.kind with
  | .sign .star => some .multiply
  | .sign .slash => some .divide
  | _ => none

def prefixOp? (t : Token) : Option UnaryOp :=
  match t.kind with
  | .keyword .not => some .not
  | .sign .minus => some .negate
  | _ => none

/-! ### The rungs -/

/-- A binary expression that starts at a token and ends at the last token taken. -/
def binary (op : BinaryOp) (left right : Expr) (start : Token) : Parser Expr := do
  let span ← spanFrom start
  countNode start
  return .binary op left right ⟨span, none⟩

/-- Continues a chain of operators of one rung behind its first operands. -/
def chainRest (operator : Token → Option BinaryOp) (operand : Parser Expr) (start : Token) :
    Nat → Expr → Parser Expr
  | 0, left => pure left
  | fuel + 1, left => do
    let t ← current
    match operator t with
    | none => return left
    | some op =>
      let _ ← advance
      nested t do
        let right ← operand
        let node ← binary op left right start
        chainRest operator operand start fuel node

/-- `operand { operator operand }`, grouped to the left. -/
def chain (operator : Token → Option BinaryOp) (operand : Parser Expr) : Parser Expr := do
  let start ← current
  let left ← operand
  let fuel ← remaining
  chainRest operator operand start fuel left

def argumentsRest (inner : Parser Expr) : Nat → Parser (List Expr)
  | 0 => pure []
  | fuel + 1 => do
    if ← acceptSign .comma then
      let arg ← inner
      let args ← argumentsRest inner fuel
      return arg :: args
    else return []

def arguments (inner : Parser Expr) : Parser (List Expr) := do
  let arg ← inner
  let fuel ← remaining
  let args ← argumentsRest inner fuel
  return arg :: args

/-- `"Call" name [ "with" arguments ]`, up to but not including a period. -/
def callWith (inner : Parser Expr) : Parser (Name × List Expr × CallNote) := do
  let start ← advance
  let callee ← expectIdentifier "'Call'" "a function name"
  let args ←
    if ← acceptKeyword .with_ then arguments inner
    else do
      let t ← current
      if t.isKeyword .of then
        fail (problem ("Malformed 'Call " ++ callee.lexeme ++ "'") t
          (some ("Pass arguments with 'Call " ++ callee.lexeme ++ " with <args>.'.")))
      else pure []
  let span ← spanFrom start
  countNode start
  return (nameOf callee, args, ⟨span, none, none, none⟩)

def noExpression : Parser Expr := do
  let t ← current
  let hint := match t.kind with
    | .terminator => some "A value is missing before the period."
    | .keyword word =>
      if word.startsStatement then
        some ("The previous statement may be missing its terminating '.' before '" ++ t.lexeme
          ++ "'.")
      else none
    | _ => none
  fail (problem "Expected an expression" t hint)

def leaf (t : Token) (node : ExprNote → Expr) : Parser Expr := do
  let _ ← advance
  countNode t
  return node ⟨t.span, none⟩

/-- A literal, a variable, an expression in parentheses, or a list in brackets. -/
def primary (inner : Parser Expr) : Parser Expr := do
  let t ← current
  match t.kind with
  | .number n => leaf t (.literal (.number n))
  | .string s => leaf t (.literal (.string s))
  | .keyword .true_ => leaf t (.literal (.boolean true))
  | .keyword .false_ => leaf t (.literal (.boolean false))
  | .identifier _ => leaf t (.variable t.lexeme)
  | .sign .openParen =>
    let _ ← advance
    let e ← inner
    let _ ← expectSign .closeParen "parenthesised expression" none
    return e
  | .sign .openBracket =>
    let _ ← advance
    let next ← current
    let elements ← if next.isSign .closeBracket then pure [] else arguments inner
    let _ ← expectSign .closeBracket "list literal"
      (some "Separate list elements with ',' and close with ']'.")
    let span ← spanFrom t
    countNode t
    return .list elements ⟨span, none⟩
  | _ => noExpression

def selectionRest (start : Token) : Nat → Expr → Parser Expr
  | 0, base => pure base
  | fuel + 1, base => do
    let t ← current
    if t.isSign .dot then
      let _ ← advance
      nested t do
        let name ← expectIdentifier "field access" "a field name"
        let span ← spanFrom start
        countNode start
        selectionRest start fuel (.field base (nameOf name) ⟨span, none⟩)
    else return base

/-- `primary { "." name }` -/
def selection (inner : Parser Expr) : Parser Expr := do
  let start ← current
  let base ← primary inner
  let fuel ← remaining
  selectionRest start fuel base

/-- `"Call" name [ "with" arguments ]`, `name "of" arguments`, or a selection. -/
def application (inner : Parser Expr) : Parser Expr := do
  let t ← current
  let next ← second
  match t.kind, next.kind with
  | .keyword .call, _ =>
    let (callee, args, note) ← callWith inner
    return .call callee args note
  | .identifier _, .keyword .of =>
    let _ ← advance
    let _ ← advance
    let args ← arguments inner
    let span ← spanFrom t
    countNode t
    return .call (nameOf t) args ⟨span, none, none, none⟩
  | _, _ => selection inner

/-- `{ "not" | "-" } application` -/
def prefixed (operand : Parser Expr) : Nat → Parser Expr
  | 0 => operand
  | fuel + 1 => do
    let t ← current
    match prefixOp? t with
    | none => operand
    | some op =>
      let _ ← advance
      let e ← nested t (prefixed operand fuel)
      let span ← spanFrom t
      countNode t
      return .unary op e ⟨span, none⟩

def unaryRung (inner : Parser Expr) : Parser Expr := do
  let fuel ← remaining
  prefixed (application inner) fuel

def termRung (inner : Parser Expr) : Parser Expr :=
  chain multiplicativeOp? (unaryRung inner)

def additiveRung (inner : Parser Expr) : Parser Expr :=
  chain additiveOp? (termRung inner)

def acceptComparison : Parser (Option BinaryOp) := do
  if ← acceptKeyword .is then
    if ← acceptKeyword .not then return some .isNot else return some .is
  else
    let t ← current
    match orderOp? t with
    | some op =>
      let _ ← advance
      return some op
    | none => return none

/-- At most one comparison of two sums; comparisons do not chain. -/
def comparisonRung (inner : Parser Expr) : Parser Expr := do
  let start ← current
  let left ← additiveRung inner
  match ← acceptComparison with
  | none => return left
  | some op =>
    let right ← additiveRung inner
    let node ← binary op left right start
    let t ← current
    if t.isKeyword .is || (orderOp? t).isSome then
      fail (problem "Comparisons cannot be chained" t
        (some "Combine separate comparisons with 'and'."))
    else return node

def andRung (inner : Parser Expr) : Parser Expr :=
  chain andOp? (comparisonRung inner)

/-- The whole ladder, one level deeper than its surroundings. -/
def expressionWith (inner : Parser Expr) : Parser Expr := do
  let start ← current
  nested start (chain orOp? (andRung inner))

/-- An expression of at most so many tokens. Without any left there is none to find. -/
def expressionUpTo : Nat → Parser Expr
  | 0 => expressionWith noExpression
  | fuel + 1 => expressionWith (expressionUpTo fuel)

def expression : Parser Expr := do
  let fuel ← remaining
  expressionUpTo fuel

def call : Parser (Name × List Expr × CallNote) := do
  let fuel ← remaining
  callWith (expressionUpTo fuel)

end Prosaic.Parser
