import Prosaic.Fault

/-!
What the emitted module looks like, apart from what the program says.
-/

namespace Prosaic

structure Target where
  language : String
  /-- Where imported names come from. -/
  domainModule : String
  indent : String
  /-- Whether the module starts with a line that says how it was made. -/
  header : Bool
  deriving DecidableEq, Repr

namespace Target

def standard : Target := ⟨"typescript", "./domain", "  ", true⟩

instance : Inhabited Target := ⟨standard⟩

def supported : List String := ["typescript"]

/-- What is wrong with the settings, if anything. -/
def fault? (t : Target) : Option Fault :=
  if supported.contains t.language then none
  else
    some { Fault.ofMessage ("Unsupported target language '" ++ t.language ++ "'.") with
      hint := some ("Supported targets: " ++ ", ".intercalate supported ++ ".") }

end Target

end Prosaic
