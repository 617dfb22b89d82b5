import Prosaic.Grammar.Expression

/-!
Blocks: opening and closing constructs, and recovering from a failure inside one. A failure is
reported, and the reading goes on at the next boundary: behind a period, or before a word that
starts a statement, a branch, a closer or a declaration.

The rules that hold blocks are written for whatever can open, read and close them: for a parser, or
for one that also writes down what it does.
-/

namespace Prosaic.Parser

/-! ### Recovery -/

def isBoundaryWord : Keyword → Bool
  | .end_ | .otherwise | .define | .let_ | .if_ | .for_ | .return_ => true
  | _ => false

/-- Skips to the next boundary. Tells whether a colon was taken instead, which only counts as a
boundary if it is asked for. -/
def skipToBoundary (colonToo : Bool) : Nat → Parser Bool
  | 0 => pure false
  | fuel + 1 => do
    let t ← current
    match t.kind with
    | .eof => return false
    | .terminator =>
      let _ ← advance
      return false
    | .sign .colon =>
      let _ ← advance
      if colonToo then return true else skipToBoundary colonToo fuel
    | .keyword word =>
      if isBoundaryWord word then return false
      else
        let _ ← advance
        skipToBoundary colonToo fuel
    | _ =>
      let _ ← advance
      skipToBoundary colonToo fuel

/-- Resumes behind a failure of something that began when `start` tokens were to come. At least one
token of it is skipped. -/
def synchronize (start : Nat) (colonToo : Bool) : Parser Bool := do
  let here ← remaining
  if here = start then
    let _ ← advance
  let fuel ← remaining
  skipToBoundary colonToo fuel

/-- Runs on behind a header. If the header failed, the reading resumes behind its colon; without a
colon the failure stands. -/
def recoverHeader (start : Nat) (failure : Option Diagnostic) : Parser PUnit :=
  match failure with
  | none => pure ⟨⟩
  | some d => do
    if ← synchronize start true then report d else fail d

/-! ### Open constructs -/

def openBlock (b : Block) (opener : Token) : Parser PUnit := do
  enter opener
  fun s => .done ⟨⟩ { s with blocks := b :: s.blocks }

def popBlock : Parser PUnit := fun s =>
  .done ⟨⟩ { s.exit with blocks := s.blocks.tail }

def openBlocks : Parser (List Block) := fun s => .done s.blocks s

def BlockKind.ofCloser? : Keyword → Option BlockKind
  | .function => some .function
  | .ifCloser => some .if_
  | .forCloser => some .for_
  | .record => some .record
  | _ => none

def closes? (t : Token) : Option BlockKind :=
  t.keyword?.bind BlockKind.ofCloser?

def skipStrayCloser (endToken word : Token) : Parser PUnit := do
  let blocks ← openBlocks
  let names := if blocks.isEmpty then "nothing"
    else ", ".intercalate (blocks.map fun b => "'" ++ b.label ++ "'")
  report (problem ("'End " ++ word.lexeme ++ "' does not close any open construct") endToken
    (some ("Currently open: " ++ names ++ ". Remove the stray 'End " ++ word.lexeme ++ ".'.")))
  let _ ← advance
  let _ ← advance
  let _ ← acceptTerminator

/-- Takes `End` and the word that closes a construct, or reports why they are missing. The closer of
another construct is left where it is. -/
def closer (b : Block) : Parser (Option Span) := do
  let t ← current
  let word ← second
  match t.kind with
  | .keyword .end_ =>
    match closes? word with
    | some kind =>
      if kind = b.kind then
        let _ ← advance
        let _ ← advance
        unless ← acceptTerminator do
          report (problem ("Missing '.' after 'End " ++ word.lexeme ++ "'") (← current)
            (some ("Write '" ++ b.closerText ++ "'.")))
        return some ⟨t.span.start, word.span.stop⟩
      else
        report (problem ("Mismatched block closer 'End " ++ word.lexeme ++ "': " ++ b.describe
            ++ " is still open") t
          (some ("Add '" ++ b.closerText ++ "' before 'End " ++ word.lexeme ++ ".' to close '"
            ++ b.label ++ "'.")))
        return none
    | none =>
      report (expectation ("Incomplete block closer for " ++ b.describe)
        ["'" ++ b.kind.closer.text ++ "'"] (if word.isEof then t else word)
        (some ("Write '" ++ b.closerText ++ "' to close '" ++ b.label ++ "'.")))
      let _ ← advance
      let _ ← acceptTerminator
      return none
  | kind =>
    let message := match kind with
      | .eof => "Reached end of input while " ++ b.describe ++ " is still open"
      | .keyword .define => "New declaration starts while " ++ b.describe ++ " is still open"
      | _ => "Unexpected " ++ t.describe ++ " while " ++ b.describe ++ " is still open"
    report (problem message t (some ("Add '" ++ b.closerText ++ "' to close '" ++ b.label ++ "'.")))
    return none

def closeBlock (b : Block) : Parser (Option Span) := do
  let span ← closer b
  popBlock
  return span

/-- The steps of rules that hold blocks. -/
class BlockReader (m : Type → Type) where
  lift {α : Type} : Parser α → m α
  attempt {α : Type} : m α → m (Except Diagnostic α)
  opening : Block → Token → m PUnit
  /-- Reads the block of a construct. -/
  within {α : Type} : Block → m α → m α
  closing : Block → m (Option Span)

instance : BlockReader Parser where
  lift p := p
  attempt := attempt
  opening := openBlock
  within _ p := p
  closing := closeBlock

instance (priority := low) {m : Type → Type} [BlockReader m] : MonadLift Parser m :=
  ⟨BlockReader.lift⟩

theorem liftM_eq {m : Type → Type} [BlockReader m] {α : Type} (p : Parser α) :
    (liftM p : m α) = BlockReader.lift p := rfl

theorem lift_eq {α : Type} (p : Parser α) : BlockReader.lift p = p := rfl

end Prosaic.Parser
