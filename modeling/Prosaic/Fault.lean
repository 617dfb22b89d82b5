import Prosaic.Diagnostic

/-!
Faults: problems that are not findings about a program, such as a broken registry document or
configuration. A fault has a message and whatever is known of its place, its code and its remedy.
-/

namespace Prosaic

/-- A problem with what is known about it. -/
structure Fault where
  message : String
  path : Option String
  location : Option Location
  code : Option String
  hint : Option String
  deriving DecidableEq, Repr, Inhabited

namespace Fault

def ofMessage (message : String) : Fault := ⟨message, none, none, none, none⟩

def present (s : Option String) : Option String :=
  s.filter fun s => !s.isEmpty

def nowhere : String := "unknown location"

def place (f : Fault) : String :=
  match present f.path, f.location with
  | some path, some at_ => path ++ ":" ++ toString at_.line ++ ":" ++ toString at_.column
  | none, some at_ => toString at_.line ++ ":" ++ toString at_.column
  | some path, none => path
  | none, none => nowhere

/-- The place, if it says something. A file whose name is what is said of an unknown place says
nothing either. -/
def namedPlace (f : Fault) : Option String :=
  if f.place = nowhere then none else some f.place

/-- The message, in brackets the place and the code, and the hint; unknown parts are left out. -/
def format (f : Fault) : String :=
  let known := [f.namedPlace, present f.code].reduceOption
  let details := if known.isEmpty then "" else " (" ++ "; ".intercalate known ++ ")"
  let parts := [f.message ++ details] ++ ((present f.hint).map ("Hint: " ++ ·)).toList
  " ".intercalate (parts.filter fun s => !s.isEmpty)

end Fault

end Prosaic
