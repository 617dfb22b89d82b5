import Prosaic.Diagnostic
import Prosaic.Document.Value

/-!
Findings: the diagnostics of a compilation, each once. Two diagnostics that differ in their hints or
phases only say the same. They are reported by phase, within a phase by place, and at one place by
code.
-/

namespace Prosaic

namespace Diagnostic

def repeats (a b : Diagnostic) : Bool :=
  a.code = b.code && a.location = b.location && a.message = b.message

/-- Whether a diagnostic may be reported before another: by phase, line, column and code. -/
def precedes (a b : Diagnostic) : Bool :=
  if a.phase.rank ≠ b.phase.rank then a.phase.rank < b.phase.rank
  else if a.location.line ≠ b.location.line then a.location.line < b.location.line
  else if a.location.column ≠ b.location.column then a.location.column < b.location.column
  else a.code ≤ b.code

/-- A diagnostic as a document; an absent hint is left out. -/
def document (d : Diagnostic) : Document :=
  let hint := (d.hint.map fun h => ("hint", Document.string h)).toList
  .table ([("code", .string d.code), ("message", .string d.message),
    ("location", .table [("line", .number (.integer d.location.line)),
      ("column", .number (.integer d.location.column))])] ++ hint)

end Diagnostic

/-- Diagnostics in the order in which they were found, no two of which say the same. -/
structure Findings where
  entries : List Diagnostic
  deriving DecidableEq, Repr, Inhabited

namespace Findings

def empty : Findings := ⟨[]⟩

def add (f : Findings) (d : Diagnostic) : Findings :=
  if f.entries.any d.repeats then f else ⟨f.entries ++ [d]⟩

def extend (f : Findings) (ds : List Diagnostic) : Findings := ds.foldl add f

def ofList (ds : List Diagnostic) : Findings := empty.extend ds

def size (f : Findings) : Nat := f.entries.length

def isEmpty (f : Findings) : Bool := f.entries.isEmpty

/-- The diagnostics in the order in which they are reported; equal keys stay in the order in which
they were found. -/
def sorted (f : Findings) : List Diagnostic := f.entries.mergeSort Diagnostic.precedes

def codes (f : Findings) : List String := f.sorted.map Diagnostic.code

def document (f : Findings) : Document := .array (f.sorted.map Diagnostic.document)

end Findings

end Prosaic
