import Prosaic.Proofs.Grammar.Loops

/-!
The history of a reading: what it opens, whose blocks it reads, and what it closes, each with the
states before and after. The rules that hold blocks are read here by parsers that write this down.
-/

namespace Prosaic.Parser

/-- What can happen to a construct. -/
inductive Event
  | opened (b : Block) (before after : State)
  | body (b : Block) (s : State)
  | closed (b : Block) (before after : State)

/-- A parser that writes down what happens. -/
def Recorded (α : Type) := State → List Event × Outcome α

namespace Recorded

variable {α β : Type}

instance : Monad Recorded where
  pure a := fun s => ([], .done a s)
  bind p f := fun s =>
    match (p s).2 with
    | .done a t => ((p s).1 ++ (f a t).1, (f a t).2)
    | .failed d t => ((p s).1, .failed d t)
    | .stopped e t => ((p s).1, .stopped e t)

/-- The parser without its history. -/
def erase (p : Recorded α) : Parser α := fun s => (p s).2

def opening (b : Block) (opener : Token) : Recorded PUnit := fun s =>
  match openBlock b opener s with
  | .done u t => ([.opened b s t], .done u t)
  | o => ([], o)

def within (b : Block) (p : Recorded α) : Recorded α := fun s => (.body b s :: (p s).1, (p s).2)

def closing (b : Block) : Recorded (Option Span) := fun s =>
  match closeBlock b s with
  | .done span t => ([.closed b s t], .done span t)
  | o => ([], o)

instance : BlockReader Recorded where
  lift p := fun s => ([], p s)
  attempt p := fun s => ((p s).1, Parser.attempt p.erase s)
  opening := opening
  within := within
  closing := closing

/-- The declarations, with all that happens in the turns of the top level. -/
def declarations : Nat → State → List Event × List Decl × State
  | 0, s => ([], [], s)
  | fuel + 1, s =>
    if s.current.isEof then ([], [], s)
    else
      match (turn : Recorded _) s with
      | (events, .done d s) =>
        let (later, ds, s) := declarations fuel s
        (events ++ later, d.toList ++ ds, s)
      | (events, .failed d s) =>
        let (later, ds, s) := declarations fuel { s with found := d :: s.found }
        (events ++ later, ds, s)
      | (events, .stopped e s) => (events, [], { s with found := e.diagnostic .parse :: s.found })

end Recorded

end Prosaic.Parser
