import Prosaic.Fault
import Prosaic.Numeric.Decimal

/-!
The resources of one compilation. Nesting depth and the number of syntax nodes are counted while a
program is read; the time is checked by reading a clock against a deadline, in every phase.
-/

namespace Prosaic

structure Limits where
  nestingDepth : Int
  nodes : Int
  timeBudget : Binary64
  deriving DecidableEq, Repr

namespace Limits

def fiveSeconds : Binary64 := .ofInt 5

def standard : Limits := ⟨48, 50000, fiveSeconds⟩

instance : Inhabited Limits := ⟨standard⟩

end Limits

inductive Limit
  | nestingDepth (most : Int)
  | nodes (most : Int)
  | time (budget : Binary64)
  deriving DecidableEq, Repr

namespace Limit

def setting : Limit → String
  | nestingDepth _ => "max_nesting_depth"
  | nodes _ => "max_nodes"
  | time _ => "time_budget_seconds"

def message : Limit → String
  | nestingDepth most => "Nesting depth exceeds the limit of " ++ toString most
  | nodes most => "Program exceeds the limit of " ++ toString most ++ " syntax nodes"
  | time budget => "Compilation exceeded its time budget of " ++ budget.briefText ++ "s"

def hint (setting : String) : String :=
  "Simplify the program or raise '" ++ setting ++ "' in the compiler limits."

end Limit

/-- A line or column zero says nothing about where, so the first one is reported instead. -/
def Location.reported (l : Location) : Location :=
  ⟨if l.line = 0 then 1 else l.line, if l.column = 0 then 1 else l.column⟩

structure Exceeded where
  limit : Limit
  location : Location
  deriving DecidableEq, Repr

namespace Exceeded

def fault (e : Exceeded) : Fault :=
  ⟨e.limit.message, none, some e.location, some Diagnostic.resourceLimit, none⟩

def diagnostic (e : Exceeded) (phase : Phase) : Diagnostic :=
  ⟨Diagnostic.resourceLimit, e.limit.message, e.location.reported,
    some (Limit.hint e.limit.setting), phase⟩

theorem location_of_mem_ite {p : Prop} [Decidable p] {limit : Limit} {l : Location} {e : Exceeded}
    (h : e ∈ if p then some ⟨limit, l⟩ else none) : e.location = l := by
  split at h
  · cases h
    rfl
  · cases h

end Exceeded

/-- A clock: its next reading and the ones after it; the last one repeats for ever. -/
structure Clock where
  next : Binary64
  later : List Binary64
  deriving DecidableEq, Repr

namespace Clock

def still : Clock := ⟨.zero, []⟩

def tick (c : Clock) : Clock :=
  match c.later with
  | [] => c
  | next :: later => ⟨next, later⟩

end Clock

structure Budget where
  limits : Limits
  clock : Clock
  deadline : Binary64
  depth : Int
  nodes : Nat
  deriving DecidableEq, Repr

namespace Budget

/-- A fresh budget. The clock is read once, and the time runs from that reading. -/
def start (limits : Limits) (clock : Clock) : Budget :=
  ⟨limits, clock.tick, clock.next.add limits.timeBudget, 0, 0⟩

/-- One more level of nesting. It counts even when it is one too many. -/
def enter (b : Budget) (location : Location) : Option Exceeded × Budget :=
  let b := { b with depth := b.depth + 1 }
  (if b.limits.nestingDepth < b.depth then some ⟨.nestingDepth b.limits.nestingDepth, location⟩
    else none, b)

def exit (b : Budget) : Budget := { b with depth := b.depth - 1 }

def countNode (b : Budget) (location : Location) : Option Exceeded × Budget :=
  let b := { b with nodes := b.nodes + 1 }
  (if b.limits.nodes < b.nodes then some ⟨.nodes b.limits.nodes, location⟩ else none, b)

/-- Reads the clock; the time is over when the reading is past the deadline. -/
def checkTime (b : Budget) (location : Location) : Option Exceeded × Budget :=
  (if b.deadline.lt b.clock.next then some ⟨.time b.limits.timeBudget, location⟩ else none,
    { b with clock := b.clock.tick })

end Budget

end Prosaic
