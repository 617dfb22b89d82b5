import Prosaic.Budget
import Prosaic.Token

/-!
Parsers over tokens. A parser ends in one of three ways: with a value; with a syntax failure, from
which an enclosing parser can recover; or because a limit is exceeded, which ends the whole reading.
In each case the state tells how far it came and what it has found.
-/

namespace Prosaic

inductive BlockKind
  | function | if_ | for_ | record
  deriving DecidableEq, Repr

def BlockKind.closer : BlockKind → Keyword
  | function => .function
  | if_ => .ifCloser
  | for_ => .forCloser
  | record => .record

structure Block where
  kind : BlockKind
  label : String
  line : Nat
  deriving DecidableEq, Repr

namespace Block

def describe (b : Block) : String :=
  "'" ++ b.label ++ "' opened at line " ++ toString b.line

def closerText (b : Block) : String :=
  "End " ++ b.kind.closer.text ++ "."

end Block

structure Parser.State where
  /-- The tokens to come, without the one that marks the end. -/
  rest : List Token
  /-- How many tokens are to come. -/
  left : Nat
  left_eq : left = rest.length
  /-- The token that marks the end. -/
  stop : Token
  /-- The end of the token before, once there is one. -/
  last : Option Position
  budget : Budget
  /-- The open constructs, innermost first. -/
  blocks : List Block
  /-- The findings so far, newest first. -/
  found : List Diagnostic
  deriving Repr

def Parser.State.start (tokens : List Token) (stop : Token) (budget : Budget) : Parser.State :=
  ⟨tokens, tokens.length, rfl, stop, none, budget, [], []⟩

/-- How a parser ends. -/
inductive Parser.Outcome (α : Type)
  | done (value : α) (state : Parser.State)
  | failed (failure : Diagnostic) (state : Parser.State)
  | stopped (exceeded : Exceeded) (state : Parser.State)

def Parser (α : Type) := Parser.State → Parser.Outcome α

namespace Parser

variable {α β : Type}

instance : Monad Parser where
  pure a := fun s => .done a s
  bind p f := fun s =>
    match p s with
    | .done a s => f a s
    | .failed d s => .failed d s
    | .stopped e s => .stopped e s

/-! ### Tokens -/

/-- The token to read next; at the end, again and again, the one that marks it. -/
def State.current (s : State) : Token := s.rest.headD s.stop

def State.second (s : State) : Token := s.rest.tail.headD s.stop

/-- Moves past the current token, but never past the end. -/
def State.advance (s : State) : State :=
  match h : s.rest with
  | [] => s
  | t :: rest =>
    { s with
      rest := rest
      left := s.left - 1
      left_eq := by simp [s.left_eq, h]
      last := some t.span.stop }

def current : Parser Token := fun s => .done s.current s

def second : Parser Token := fun s => .done s.second s

/-- The number of tokens to come. It bounds how often a loop that takes a token can turn. -/
def remaining : Parser Nat := fun s => .done s.left s

def advance : Parser Token := fun s => .done s.current s.advance

/-- Takes the current token if it is a given word, and tells whether it did. -/
def acceptKeyword (word : Keyword) : Parser Bool := fun s =>
  if s.current.isKeyword word then .done true s.advance else .done false s

def acceptSign (sign : Sign) : Parser Bool := fun s =>
  if s.current.isSign sign then .done true s.advance else .done false s

def acceptTerminator : Parser Bool := fun s =>
  if s.current.isTerminator then .done true s.advance else .done false s

/-- The text from the start of a token to the end of the last one taken. -/
def spanFrom (start : Token) : Parser Span := fun s =>
  .done ⟨start.span.start, s.last.getD start.span.stop⟩ s

/-! ### Findings and failures -/

def report (d : Diagnostic) : Parser PUnit := fun s => .done ⟨⟩ { s with found := d :: s.found }

def fail (d : Diagnostic) : Parser α := fun s => .failed d s

def attempt (p : Parser α) : Parser (Except Diagnostic α) := fun s =>
  match p s with
  | .done a s => .done (.ok a) s
  | .failed d s => .done (.error d) s
  | .stopped e s => .stopped e s

def problem (message : String) (t : Token) (hint : Option String) : Diagnostic :=
  ⟨Diagnostic.syntaxError, message, t.span.start.location, hint, .parse⟩

def expectation (context : String) (expected : List String) (t : Token) (hint : Option String) :
    Diagnostic :=
  let wanted := match expected with
    | [one] => one
    | several => "one of " ++ ", ".intercalate several
  problem (context ++ ": expected " ++ wanted ++ ", found " ++ t.describe) t hint

/-! ### Resources -/

def spend (use : Budget → Option Exceeded × Budget) : Parser PUnit := fun s =>
  match use s.budget with
  | (none, budget) => .done ⟨⟩ { s with budget := budget }
  | (some e, budget) => .stopped e { s with budget := budget }

def countNode (t : Token) : Parser PUnit := spend (·.countNode t.span.start.location)

def checkTime (t : Token) : Parser PUnit := spend (·.checkTime t.span.start.location)

def enter (t : Token) : Parser PUnit := spend (·.enter t.span.start.location)

def State.exit (s : State) : State := { s with budget := s.budget.exit }

/-- Reads something one level deeper; the level is given back however the reading ends. -/
def nested (t : Token) (p : Parser α) : Parser α := do
  enter t
  fun s =>
    match p s with
    | .done a s => .done a s.exit
    | .failed d s => .failed d s.exit
    | .stopped e s => .stopped e s.exit

/-! ### What has to come next -/

/-- Takes a given word. A name that looks like it is taken for a slip, unless there is a better
hint. -/
def expectKeyword (word : Keyword) (context : String) (hint : Option String) : Parser Token := do
  let t ← current
  if t.isKeyword word then advance
  else
    let slip := match t.kind with
      | .identifier _ =>
        if Keyword.suggestAny t.lexeme = some word.text then
          some ("Keywords are case-sensitive; write '" ++ word.text ++ "' instead of '"
            ++ t.lexeme ++ "'.")
        else none
      | _ => none
    fail (expectation ("Malformed " ++ context) ["'" ++ word.text ++ "'"] t (hint.or slip))

def expectSign (sign : Sign) (context : String) (hint : Option String) : Parser Token := do
  let t ← current
  if t.isSign sign then advance
  else fail (expectation ("Malformed " ++ context) ["'" ++ sign.text ++ "'"] t hint)

/-- Takes a name; a reserved word is none. -/
def expectIdentifier (context what : String) : Parser Token := do
  let t ← current
  match t.kind with
  | .identifier _ => advance
  | .keyword _ =>
    fail (expectation ("Malformed " ++ context) [what] t
      (some ("'" ++ t.lexeme ++ "' is a reserved keyword; choose a different name.")))
  | _ => fail (expectation ("Malformed " ++ context) [what] t none)

def expectTerminator (context : String) : Parser Token := do
  let t ← current
  if t.isTerminator then advance
  else
    fail (problem ("Missing '.' at the end of the " ++ context) t
      (some ("End the " ++ context ++ " with a period before " ++ t.describe ++ ".")))

end Parser

end Prosaic
